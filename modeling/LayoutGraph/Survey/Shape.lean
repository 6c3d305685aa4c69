-- How a member refers to its type: through qualifiers, which count for
-- nothing; through arrays, whose extents the field takes over while no
-- pointer was crossed; through pointers, which are counted.
import LayoutGraph.Source.Basic
import LayoutGraph.Survey.Limit

namespace LayoutGraph.Survey

/-! ## Qualifiers -/

/-- The entry behind the qualifiers around `id`, or nothing for `void`. -/
def unqualified (source : Source) : (room : Nat) → EntryId → Except Failure (Option Entry)
  | 0, id => .error (tooDeep id)
  | room + 1, id => do
    let entry ← source.entry id
    match entry.kind with
    | .qualified (some target) => unqualified source room target
    | .qualified none => return none
    | _ => return some entry

/-! ## Shapes -/

/-- The entry at which the walk down a member's type ends, and the room that is left there. -/
structure Goal where
  entry : EntryId
  room : Nat
deriving DecidableEq, Repr, Inhabited

/-- What a member's type comes to. No goal stands for `void`. -/
structure Shape where
  extents : List Nat := []
  pointerDepth : Nat := 0
  goal : Option Goal := none
deriving DecidableEq, Repr, Inhabited

/-- The shape of the type `id`, after the arrays and pointers of `crossed`. -/
def shapeFrom (source : Source) : (room : Nat) → (crossed : Shape) → EntryId → Except Failure Shape
  | 0, _, id => .error (tooDeep id)
  | room + 1, crossed, id => do
    let entry ← source.entry id
    let stop : Except Failure Shape := .ok { crossed with goal := some ⟨id, room + 1⟩ }
    match entry.kind with
    | .qualified (some target) => shapeFrom source room crossed target
    | .qualified none => return crossed
    | .array element extents =>
      if crossed.pointerDepth = 0 then
        shapeFrom source room { crossed with extents := crossed.extents ++ extents } element
      else stop
    | .pointer target =>
      let crossed := { crossed with pointerDepth := crossed.pointerDepth + 1 }
      match target with
      | some target => shapeFrom source room crossed target
      | none => return crossed
    | _ => stop

/-- The shape of a member's type. -/
def shapeOf (source : Source) (room : Nat) (type : EntryId) : Except Failure Shape :=
  shapeFrom source room {} type

/-! ## The room at the goal -/

theorem goal_room_le_of_shapeFrom {source : Source} {room : Nat} {crossed : Shape} {id : EntryId}
    {shape : Shape} {goal : Goal} (start : crossed.goal = none)
    (h : shapeFrom source room crossed id = .ok shape) (hg : shape.goal = some goal) :
    goal.room ≤ room := by
  induction room generalizing crossed id with
  | zero => simp [shapeFrom] at h
  | succ room ih =>
    unfold shapeFrom at h
    cases hentry : source.entry id with
    | error e => simp [hentry, bind, Except.bind] at h
    | ok entry =>
      simp only [hentry, bind, Except.bind, pure, Except.pure] at h
      split at h
      · exact Nat.le_succ_of_le (ih start h)
      · cases h
        simp [start] at hg
      · split at h
        · exact Nat.le_succ_of_le (ih (by exact start) h)
        · cases h
          cases hg
          exact Nat.le_refl _
      · split at h
        · exact Nat.le_succ_of_le (ih (by exact start) h)
        · cases h
          simp [start] at hg
      · cases h
        cases hg
        exact Nat.le_refl _

/-- A shape ends with no more room than the walk to it had. -/
theorem goal_room_le {source : Source} {room : Nat} {type : EntryId} {shape : Shape} {goal : Goal}
    (h : shapeOf source room type = .ok shape) (hg : shape.goal = some goal) :
    goal.room ≤ room :=
  goal_room_le_of_shapeFrom rfl h hg

end LayoutGraph.Survey
