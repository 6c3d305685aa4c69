-- Forests of entries: what hangs below what, and the two ways in which a
-- reader sees it, as a walk in document order and as the children of one
-- entry.
import LayoutGraph.Dwarf.Decode

namespace LayoutGraph.Dwarf

/-! ## Forests -/

/-- Sibling entries in order, each with the forest of what stands below it. -/
inductive Forest
  | nil
  | cons (d : Die) (below rest : Forest)
deriving DecidableEq, Repr, Inhabited

/-- An entry where it stands in a forest. -/
structure Node where
  depth : Nat
  die : Die
  /-- The entries that stand directly below it, in order. -/
  children : List Die
deriving DecidableEq, Repr, Inhabited

namespace Forest

/-- The entries at the top. -/
def row : Forest → List Die
  | .nil => []
  | .cons d _ rest => d :: rest.row

/-- The entries directly below those at the top. -/
def secondRow : Forest → List Die
  | .nil => []
  | .cons _ below rest => below.row ++ rest.secondRow

/-- All entries in document order, where those at the top stand at a depth. -/
def nodesFrom (depth : Nat) : Forest → List Node
  | .nil => []
  | .cons d below rest =>
    ⟨depth, d, below.row⟩ :: (below.nodesFrom (depth + 1) ++ rest.nodesFrom depth)

def nodes (f : Forest) : List Node := f.nodesFrom 0

end Forest

/-- The entries of nodes, each with the levels by which it stands below the one before it. -/
def stepsFrom : (depth : Int) → List Node → List (Int × Die)
  | _, [] => []
  | depth, n :: rest => (n.depth - depth, n.die) :: stepsFrom n.depth rest

/-- What a reader sees of a unit hangs together as a forest: the walk goes through the entries in
document order, and the children of each are those that stand directly below it. -/
structure Outline.Follows (sections : Sections) (o : Outline) (f : Forest) : Prop where
  walk : o.walk.run sections = ⟨stepsFrom 0 f.nodes, none⟩
  children : ∀ n ∈ f.nodes, (o.children n.die).run sections = ⟨n.children, none⟩

instance (sections : Sections) (o : Outline) (f : Forest) : Decidable (o.Follows sections f) :=
  decidable_of_iff (o.walk.run sections = ⟨stepsFrom 0 f.nodes, none⟩ ∧
      ∀ n ∈ f.nodes, (o.children n.die).run sections = ⟨n.children, none⟩)
    ⟨fun h => ⟨h.1, h.2⟩, fun h => ⟨h.walk, h.children⟩⟩

/-! ## Steps -/

theorem map_place_stepsFrom (depth : Int) (nodes : List Node) :
    (stepsFrom depth nodes).map (fun p => p.2.place) = nodes.map fun n => n.die.place := by
  induction nodes generalizing depth with
  | nil => rfl
  | cons n rest ih =>
    unfold stepsFrom
    rw [List.map_cons, List.map_cons, ih]

/-- Summing the steps gives the depths back. -/
theorem depthsFrom_stepsFrom (depth : Int) (nodes : List Node) :
    Scope.depthsFrom depth (stepsFrom depth nodes) =
      nodes.map fun n => ((n.depth : Int), n.die) := by
  induction nodes generalizing depth with
  | nil => rfl
  | cons n rest ih =>
    have hsum : depth + ((n.depth : Int) - depth) = n.depth := by omega
    unfold stepsFrom Scope.depthsFrom
    rw [hsum, ih, List.map_cons]

/-! ## Depths -/

namespace Forest

theorem le_depth {f : Forest} {depth : Nat} : ∀ n ∈ f.nodesFrom depth, depth ≤ n.depth := by
  induction f generalizing depth with
  | nil => simp [nodesFrom]
  | cons d below rest hbelow hrest =>
    intro n hn
    rcases List.mem_cons.mp hn with rfl | hn
    · exact Nat.le_refl depth
    · rcases List.mem_append.mp hn with hn | hn
      · exact Nat.le_of_succ_le (hbelow n hn)
      · exact hrest n hn

/-- No entry stands above the top. -/
theorem filter_above {f : Forest} {depth wanted : Nat} (h : wanted < depth) :
    (f.nodesFrom depth).filter (fun n => n.depth = wanted) = [] := by
  rw [List.filter_eq_nil_iff]
  intro n hn
  have := le_depth n hn
  simp only [decide_eq_true_eq]
  omega

/-- At the depth of the top stand the entries at the top. -/
theorem map_filter_top (f : Forest) (depth : Nat) :
    ((f.nodesFrom depth).filter fun n => n.depth = depth).map Node.die = f.row := by
  induction f generalizing depth with
  | nil => rfl
  | cons d below rest _ hrest =>
    unfold nodesFrom row
    rw [List.filter_cons_of_pos (by simp), List.filter_append,
      filter_above (Nat.lt_succ_self depth), List.nil_append, List.map_cons, hrest]

/-- One level lower stand those directly below the top. -/
theorem map_filter_second (f : Forest) (depth : Nat) :
    ((f.nodesFrom depth).filter fun n => n.depth = depth + 1).map Node.die = f.secondRow := by
  induction f generalizing depth with
  | nil => rfl
  | cons d below rest _ hrest =>
    unfold nodesFrom secondRow
    rw [List.filter_cons_of_neg (by simp), List.filter_append, List.map_append, map_filter_top,
      hrest]

end Forest

end LayoutGraph.Dwarf
