-- How types refer to one another, told without a limit on the length of a
-- chain: what lies behind qualifiers, what a member's type comes to, and
-- which symbol an entry comes to.
import LayoutGraph.Proofs.Chain
import LayoutGraph.Proofs.Source.Reachable
import LayoutGraph.Survey.Walk

namespace LayoutGraph.Survey

variable {source : Source}

theorem entry_eq_ok {id : EntryId} {e : Entry} :
    source.entry id = .ok e ↔ source.find? id = some e := by
  unfold Source.entry
  cases source.find? id <;> simp

/-! ## Behind qualifiers -/

/-- The entry behind the qualifiers around an id, or nothing for `void`. -/
inductive Strips (source : Source) : EntryId → Option Entry → Prop
  | stop {id : EntryId} {e : Entry} : source.find? id = some e →
    (∀ target, e.kind ≠ .qualified target) → Strips source id (some e)
  | skip {id target : EntryId} {e : Entry} {behind : Option Entry} : source.find? id = some e →
    e.kind = .qualified (some target) → Strips source target behind → Strips source id behind
  | void {id : EntryId} {e : Entry} : source.find? id = some e → e.kind = .qualified none →
    Strips source id none

theorem strips_of_unqualified {room : Nat} {id : EntryId} {behind : Option Entry}
    (h : unqualified source room id = .ok behind) : Strips source id behind := by
  induction room generalizing id with
  | zero => cases h
  | succ room ih =>
    unfold unqualified at h
    cases hentry : source.entry id with
    | error e =>
      rw [hentry] at h
      cases h
    | ok entry =>
      rw [hentry] at h
      have hfind := entry_eq_ok.mp hentry
      dsimp only [bind, Except.bind] at h
      split at h
      · rename_i hkind
        exact .skip hfind hkind (ih h)
      · rename_i hkind
        cases h
        exact .void hfind hkind
      · rename_i hsome hnone
        cases h
        refine .stop hfind fun target hkind => ?_
        cases target with
        | none => exact hnone hkind
        | some target => exact hsome target hkind

/-! ## Shapes -/

/-- The type `id` leads through qualifiers, arrays and pointers to the goal: `extents` are those of
the arrays before the first pointer, and `pointers` counts the pointers. Once a pointer was
`crossed`, an array is a goal itself. No goal stands for `void`. -/
inductive Leads (source : Source) :
    (crossed : Bool) → EntryId → (extents : List Nat) → (pointers : Nat) → Option EntryId → Prop
  | stop {crossed : Bool} {id : EntryId} {e : Entry} : source.find? id = some e →
    (∀ target, e.kind ≠ .qualified target) → (∀ target, e.kind ≠ .pointer target) →
    (crossed = false → ∀ element extents, e.kind ≠ .array element extents) →
    Leads source crossed id [] 0 (some id)
  | qualified {crossed : Bool} {id target : EntryId} {e : Entry} {extents : List Nat}
    {pointers : Nat} {goal : Option EntryId} : source.find? id = some e →
    e.kind = .qualified (some target) → Leads source crossed target extents pointers goal →
    Leads source crossed id extents pointers goal
  | qualifiedVoid {crossed : Bool} {id : EntryId} {e : Entry} : source.find? id = some e →
    e.kind = .qualified none → Leads source crossed id [] 0 none
  | array {id element : EntryId} {e : Entry} {own extents : List Nat} {pointers : Nat}
    {goal : Option EntryId} : source.find? id = some e → e.kind = .array element own →
    Leads source false element extents pointers goal →
    Leads source false id (own ++ extents) pointers goal
  | pointer {crossed : Bool} {id target : EntryId} {e : Entry} {extents : List Nat}
    {pointers : Nat} {goal : Option EntryId} : source.find? id = some e →
    e.kind = .pointer (some target) → Leads source true target extents pointers goal →
    Leads source crossed id extents (pointers + 1) goal
  | pointerVoid {crossed : Bool} {id : EntryId} {e : Entry} : source.find? id = some e →
    e.kind = .pointer none → Leads source crossed id [] 1 none

theorem leads_of_shapeFrom {room : Nat} {crossed shape : Shape} {id : EntryId}
    (start : crossed.goal = none) (h : shapeFrom source room crossed id = .ok shape) :
    ∃ extents pointers,
      Leads source (crossed.pointerDepth ≠ 0) id extents pointers (shape.goal.map Goal.entry) ∧
      shape.extents = crossed.extents ++ extents ∧
      shape.pointerDepth = crossed.pointerDepth + pointers := by
  induction room generalizing crossed id with
  | zero => cases h
  | succ room ih =>
    unfold shapeFrom at h
    cases hentry : source.entry id with
    | error e =>
      rw [hentry] at h
      cases h
    | ok entry =>
      rw [hentry] at h
      have hfind := entry_eq_ok.mp hentry
      dsimp only [bind, Except.bind, pure, Except.pure] at h
      split at h
      · rename_i hkind
        obtain ⟨extents, pointers, hleads, hextents, hpointers⟩ := ih start h
        exact ⟨extents, pointers, .qualified hfind hkind hleads, hextents, hpointers⟩
      · rename_i hkind
        cases h
        rw [start]
        exact ⟨[], 0, .qualifiedVoid hfind hkind, by simp, rfl⟩
      · rename_i element own hkind
        split at h
        · rename_i hzero
          obtain ⟨extents, pointers, hleads, hextents, hpointers⟩ := ih (by exact start) h
          have hcrossed : decide (crossed.pointerDepth ≠ 0) = false := by simp [hzero]
          rw [hcrossed] at hleads ⊢
          refine ⟨own ++ extents, pointers, .array hfind hkind hleads, ?_, hpointers⟩
          rw [hextents, List.append_assoc]
        · rename_i hcrossed
          cases h
          refine ⟨[], 0, .stop hfind ?_ ?_ ?_, by simp, rfl⟩
          · simp [hkind]
          · simp [hkind]
          · simp [hcrossed]
      · rename_i target hkind
        split at h
        · obtain ⟨extents, pointers, hleads, hextents, hpointers⟩ := ih (by exact start) h
          refine ⟨extents, pointers + 1, .pointer hfind hkind ?_, hextents, ?_⟩
          · simpa using hleads
          · rw [hpointers]
            dsimp only
            omega
        · cases h
          rw [show ({ crossed with pointerDepth := crossed.pointerDepth + 1 } : Shape).goal = none
            from start]
          exact ⟨[], 1, .pointerVoid hfind hkind, by simp, rfl⟩
      · rename_i hskip hvoid harray hpointer
        cases h
        refine ⟨[], 0, .stop hfind (fun target hkind => ?_) (fun target hkind => ?_)
          (fun _ element extents hkind => harray element extents hkind), by simp, rfl⟩
        · cases target with
          | none => exact hvoid hkind
          | some target => exact hskip target hkind
        · exact hpointer target hkind

theorem leads_of_shapeOf {room : Nat} {type : EntryId} {shape : Shape}
    (h : shapeOf source room type = .ok shape) :
    Leads source false type shape.extents shape.pointerDepth (shape.goal.map Goal.entry) := by
  obtain ⟨extents, pointers, hleads, hextents, hpointers⟩ := leads_of_shapeFrom rfl h
  rw [hextents, hpointers]
  simpa using hleads

/-! ## Sizes -/

theorem foldlM_mono {α β : Type} {f g : β → α → Except Failure β}
    (h : ∀ b a c, f b a = .ok c → g b a = .ok c) (l : List α) (start : β) {last : β}
    (hf : l.foldlM f start = .ok last) : l.foldlM g start = .ok last := by
  induction l generalizing start with
  | nil => exact hf
  | cons a rest ih =>
    rw [List.foldlM_cons] at hf ⊢
    cases hone : f start a with
    | error e =>
      rw [hone] at hf
      cases hf
    | ok b =>
      rw [hone] at hf
      rw [h start a b hone]
      exact ih b hf

/-- More room changes no size. -/
theorem sizeOf_mono {room more : Nat} {id : EntryId} {size : Nat} (hle : room ≤ more)
    (h : sizeOf source room id = .ok size) : sizeOf source more id = .ok size := by
  induction room generalizing more id size with
  | zero => cases h
  | succ room ih =>
    obtain ⟨more, rfl⟩ : ∃ n, more = n + 1 := ⟨more - 1, by omega⟩
    unfold sizeOf at h ⊢
    cases hentry : source.entry id with
    | error e =>
      rw [hentry] at h
      cases h
    | ok entry =>
      rw [hentry] at h
      dsimp only [bind, Except.bind] at h ⊢
      split at h
      · exact h
      · split at h
        · exact h
        · exact h
        · exact h
        · refine foldlM_mono (fun extent m last hone => ?_) _ _ h
          split at hone
          · exact hone
          · cases hsize : sizeOf source room m.type with
            | error e =>
              rw [hsize] at hone
              cases hone
            | ok size =>
              rw [hsize] at hone
              rw [ih (by omega) hsize]
              exact hone
        · rename_i element extents hkind
          cases hsize : sizeOf source room element with
          | error e =>
            rw [hsize] at h
            cases h
          | ok size =>
            rw [hsize] at h
            rw [ih (by omega) hsize]
            exact h
        · exact ih (by omega) h
        · exact ih (by omega) h
        · exact h
        · exact h

/-! ## Symbols of entries -/

/-- The key of an entry that has a symbol of its own. -/
def OwnKey (source : Source) (e : Entry) (key : SymbolKey) : Prop :=
  match e.kind with
  | .base => key = ⟨if e.anonymous then voidName else e.shownName, e.byteSize.getD 0⟩
  | .enumeration _ => key = ⟨e.shownName, e.byteSize.getD 0⟩
  | .compound .. | .typedef _ =>
    key.name = e.shownName ∧ sizeOf source fullRoom e.id = .ok key.byteSize
  | .array .. | .pointer _ | .qualified _ => False

theorem ownKey_unique {e : Entry} {a b : SymbolKey} (ha : OwnKey source e a)
    (hb : OwnKey source e b) : a = b := by
  unfold OwnKey at ha hb
  cases a
  cases b
  split at ha <;> simp_all

/-- The symbol that an entry comes to: its own, or that of its element or target. -/
inductive Resolves (source : Source) : EntryId → SymbolKey → Prop
  | own {id : EntryId} {e : Entry} {key : SymbolKey} : source.find? id = some e →
    OwnKey source e key → Resolves source id key
  | array {id element : EntryId} {e : Entry} {extents : List Nat} {key : SymbolKey} :
    source.find? id = some e → e.kind = .array element extents → Resolves source element key →
    Resolves source id key
  | pointer {id target : EntryId} {e : Entry} {key : SymbolKey} : source.find? id = some e →
    e.kind = .pointer (some target) → Resolves source target key → Resolves source id key
  | pointerVoid {id : EntryId} {e : Entry} : source.find? id = some e → e.kind = .pointer none →
    Resolves source id voidKey
  | qualified {id target : EntryId} {e : Entry} {key : SymbolKey} : source.find? id = some e →
    e.kind = .qualified (some target) → Resolves source target key → Resolves source id key
  | qualifiedVoid {id : EntryId} {e : Entry} : source.find? id = some e →
    e.kind = .qualified none → Resolves source id voidKey

/-- Two ids of one entry come to one symbol. -/
theorem Resolves.congr {id other : EntryId} {e : Entry} {key : SymbolKey}
    (h : Resolves source id key) (hid : source.find? id = some e)
    (hother : source.find? other = some e) : Resolves source other key := by
  cases h with
  | own hfind hkey =>
    cases hid.symm.trans hfind
    exact .own hother hkey
  | array hfind hkind hnext =>
    cases hid.symm.trans hfind
    exact .array hother hkind hnext
  | pointer hfind hkind hnext =>
    cases hid.symm.trans hfind
    exact .pointer hother hkind hnext
  | pointerVoid hfind hkind =>
    cases hid.symm.trans hfind
    exact .pointerVoid hother hkind
  | qualified hfind hkind hnext =>
    cases hid.symm.trans hfind
    exact .qualified hother hkind hnext
  | qualifiedVoid hfind hkind =>
    cases hid.symm.trans hfind
    exact .qualifiedVoid hother hkind

end LayoutGraph.Survey
