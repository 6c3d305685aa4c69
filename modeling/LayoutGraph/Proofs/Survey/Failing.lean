-- How a survey fails: only at a reference, which leads to no entry or ends a
-- chain that is too long. The reference is one that the walk came to, from the
-- entries where it began. So a pass handles every failure of its survey.
import LayoutGraph.Pass
import LayoutGraph.Proofs.Chain
import LayoutGraph.Proofs.Survey.Content
import LayoutGraph.Proofs.Survey.Yield

namespace LayoutGraph

open Chain

namespace Survey

/-- A failure of a reference. -/
inductive OfReference : Failure → Prop
  | unresolved (id : EntryId) : OfReference (.unresolved id)
  | tooDeep (id : EntryId) : OfReference (tooDeep id)

theorem OfReference.handled {e : Failure} (h : OfReference e) : Pass.handled e = true := by
  cases h <;> rfl

/-! ## Failures at ids of a kind -/

variable {source : Source} {ids : EntryId → Prop}

/-- A failure at one of the ids: it has no entry, or the chain to it is too long. -/
inductive At (source : Source) (ids : EntryId → Prop) : Failure → Prop
  | unresolved {id : EntryId} : ids id → source.find? id = none → At source ids (.unresolved id)
  | tooDeep {id : EntryId} : ids id → At source ids (tooDeep id)

theorem At.mono {other : EntryId → Prop} (h : ∀ id, ids id → other id) {e : Failure}
    (he : At source ids e) : At source other e := by
  cases he with
  | unresolved hid hfind => exact .unresolved (h _ hid) hfind
  | tooDeep hid => exact .tooDeep (h _ hid)

theorem At.ofReference {e : Failure} (h : At source ids e) : OfReference e := by
  cases h with
  | unresolved => exact .unresolved _
  | tooDeep => exact .tooDeep _

/-- With an id the ids hold the own id of its entry, and those that the entry refers to. -/
structure Closed (source : Source) (ids : EntryId → Prop) : Prop where
  own : ∀ id e, ids id → source.find? id = some e → ids e.id
  references : ∀ id e, ids id → source.find? id = some e → ∀ target ∈ e.references, ids target

theorem Closed.strips (closed : Closed source ids) {id : EntryId} {behind : Option Entry}
    (h : Strips source id behind) (hid : ids id) {b : Entry} (hb : behind = some b) :
    ∃ other, ids other ∧ source.find? other = some b := by
  induction h with
  | stop hfind =>
    cases hb
    exact ⟨_, hid, hfind⟩
  | skip hfind hkind _ ih =>
    exact ih (closed.references _ _ hid hfind _ (mem_references_of_qualified hkind)) hb
  | void => cases hb

theorem Closed.leads (closed : Closed source ids) {crossed : Bool} {id : EntryId}
    {extents : List Nat} {pointers : Nat} {goal : Option EntryId}
    (h : Leads source crossed id extents pointers goal) (hid : ids id) {target : EntryId}
    (htarget : goal = some target) : ids target := by
  have next := fun {id e} hid hfind {target} => closed.references id e hid hfind target
  induction h with
  | stop =>
    cases htarget
    exact hid
  | qualified hfind hkind _ ih => exact ih (next hid hfind (mem_references_of_qualified hkind)) htarget
  | qualifiedVoid => cases htarget
  | array hfind hkind _ ih => exact ih (next hid hfind (mem_references_of_array hkind)) htarget
  | pointer hfind hkind _ ih => exact ih (next hid hfind (mem_references_of_pointer hkind)) htarget
  | pointerVoid => cases htarget

/-! ## Results without a state -/

/-- The result is no failure but one at the ids. -/
def Refers (source : Source) (ids : EntryId → Prop) {α : Type} (x : Except Failure α) : Prop :=
  ∀ e, x = .error e → At source ids e

theorem refers_ok {α : Type} (a : α) : Refers source ids (.ok a) := fun _ h => by cases h

theorem refers_tooDeep {α : Type} {id : EntryId} (hid : ids id) :
    Refers source ids (.error (tooDeep id) : Except Failure α) :=
  fun _ h => by cases h; exact .tooDeep hid

theorem refers_bind {α β : Type} {x : Except Failure α} {f : α → Except Failure β}
    (hx : Refers source ids x) (hf : ∀ a, x = .ok a → Refers source ids (f a)) :
    Refers source ids (x >>= f) := by
  intro e h
  cases x with
  | error d => cases h; exact hx _ rfl
  | ok a => exact hf a rfl e h

theorem refers_foldlM {α β : Type} {f : β → α → Except Failure β} {l : List α}
    (h : ∀ b, ∀ a ∈ l, Refers source ids (f b a)) (start : β) :
    Refers source ids (l.foldlM f start) := by
  induction l generalizing start with
  | nil => exact refers_ok start
  | cons a rest ih =>
    exact refers_bind (h start a List.mem_cons_self) fun b _ =>
      ih (fun c d hd => h c d (List.mem_cons_of_mem a hd)) b

theorem refers_entry {id : EntryId} (hid : ids id) : Refers source ids (source.entry id) := by
  unfold Source.entry
  split
  · exact refers_ok _
  · rename_i hnone
    intro e h
    cases h
    exact .unresolved hid hnone

variable (closed : Closed source ids)

include closed

theorem refers_unqualified (room : Nat) {id : EntryId} (hid : ids id) :
    Refers source ids (unqualified source room id) := by
  induction room generalizing id with
  | zero => exact refers_tooDeep hid
  | succ room ih =>
    unfold unqualified
    refine refers_bind (refers_entry hid) fun entry hentry => ?_
    have next := closed.references id entry hid (entry_eq_ok.mp hentry)
    split
    · exact ih (next _ (mem_references_of_qualified ‹_›))
    · exact refers_ok _
    · exact refers_ok _

theorem refers_shapeFrom (room : Nat) (crossed : Shape) {id : EntryId} (hid : ids id) :
    Refers source ids (shapeFrom source room crossed id) := by
  induction room generalizing crossed id with
  | zero => exact refers_tooDeep hid
  | succ room ih =>
    unfold shapeFrom
    refine refers_bind (refers_entry hid) fun entry hentry => ?_
    have next := closed.references id entry hid (entry_eq_ok.mp hentry)
    dsimp only
    split
    · exact ih _ (next _ (mem_references_of_qualified ‹_›))
    · exact refers_ok _
    · rename_i hkind
      split
      · exact ih _ (next _ (mem_references_of_array hkind))
      · exact refers_ok _
    · rename_i target hkind
      cases target with
      | some target => exact ih _ (next _ (mem_references_of_pointer hkind))
      | none => exact refers_ok _
    · exact refers_ok _

theorem refers_sizeOf (room : Nat) {id : EntryId} (hid : ids id) :
    Refers source ids (sizeOf source room id) := by
  induction room generalizing id with
  | zero => exact refers_tooDeep hid
  | succ room ih =>
    unfold sizeOf
    refine refers_bind (refers_entry hid) fun entry hentry => ?_
    have next := closed.references id entry hid (entry_eq_ok.mp hentry)
    split
    · exact refers_ok _
    · split
      · exact refers_ok _
      · exact refers_ok _
      · exact refers_ok _
      · rename_i hkind
        refine refers_foldlM (fun extent m hm => ?_) _
        split
        · exact refers_ok _
        · have htype := next _ ((mem_references_of_compound hkind).mpr ⟨m, hm, rfl⟩)
          exact refers_bind (ih htype) fun size _ => refers_ok _
      · exact refers_bind (ih (next _ (mem_references_of_array ‹_›))) fun size _ => refers_ok _
      · exact ih (next _ (mem_references_of_typedef ‹_›))
      · exact ih (next _ (mem_references_of_qualified ‹_›))
      · exact refers_ok _
      · exact refers_ok _

theorem refers_aliased (room : Nat) {target : Option EntryId} (hid : ∀ t, target = some t → ids t) :
    Refers source ids (aliased source room target) := by
  cases target with
  | none => exact refers_ok none
  | some target => exact refers_unqualified closed room (hid target rfl)

omit closed

/-! ## Walks -/

theorem fails_pureMove {α : Type} {x : Except Failure α} (h : Refers source ids x) :
    Fails (At source ids) (pureMove x) := by
  intro p e q heq
  cases x with
  | ok a => cases heq
  | error d => cases heq; exact h _ rfl

/-- What follows a result without a state runs on that result alone. -/
theorem fails_pureMove_bind {α β : Type} {x : Except Failure α} {f : α → Walk β}
    (hx : Refers source ids x) (hf : ∀ a, x = .ok a → Fails (At source ids) (f a)) :
    Fails (At source ids) (pureMove x >>= f) := by
  intro p e q h
  rcases bind_error_iff.mp h with h | ⟨a, m, hm, h⟩
  · exact fails_pureMove hx p e q h
  · cases x with
    | ok b =>
      cases hm
      exact hf _ rfl p e q h
    | error d => cases hm

variable {F : Failure → Prop}

theorem fails_intern (name : String) (byteSize : Nat) : Fails F (intern name byteSize) :=
  fails_bind (fails_modify _) fun _ => fails_pure _

theorem fails_voidSymbol : Fails F voidSymbol := by
  unfold voidSymbol
  refine fails_bind fails_get fun p => ?_
  split
  · exact fails_pure _
  · exact fails_bind (fails_intern _ _) fun _ => fails_bind (fails_modify _) fun _ => fails_pure _

theorem fails_emitConstants (key : SymbolKey) (constants : List Constant) :
    Fails F (emitConstants key constants) :=
  fails_forM (fun _ => fails_modify _) constants

theorem fails_completed (id : EntryId) (key : SymbolKey) :
    Fails F (do complete id key; return key) :=
  fails_bind (fails_modify _) fun _ => fails_pure key

include closed

theorem fails_emitMembers {room : Nat}
    {resolve : (left : Nat) → left ≤ room → EntryId → Walk SymbolKey}
    (h : ∀ left hle id, ids id → Fails (At source ids) (resolve left hle id)) (owner : SymbolKey)
    {members : List Member} (hmembers : ∀ m ∈ members, ids m.type) :
    Fails (At source ids) (emitMembers source room resolve owner members) := by
  refine fails_forM_of_mem fun c hc => ?_
  obtain ⟨m, place⟩ := c
  have htype := hmembers m (mem_of_mem_zipIdx hc)
  dsimp only
  split
  · rename_i e heq
    exact fails_throw (refers_shapeFrom closed room {} htype e heq)
  · rename_i shape heq
    split
    · rename_i goal hgoal
      have hleads := leads_of_shapeOf heq
      refine fails_bind (h _ _ _ (closed.leads hleads htype ?_)) fun type => fails_modify _
      rw [hgoal]
      rfl
    · exact fails_bind fails_voidSymbol fun type => fails_modify _

theorem fails_resolve (room : Nat) {id : EntryId} (name? : Option String) (hid : ids id) :
    Fails (At source ids) (resolve source room id name?) := by
  induction room using Nat.strongRecOn generalizing id name? with
  | ind room ih =>
    unfold resolve
    cases room with
    | zero => exact fails_throw (.tooDeep hid)
    | succ room =>
      -- Members are walked where some entry of the ids has them.
      have members : ∀ room' ≤ room, ∀ owner other b kind members declaration, ids other →
          source.find? other = some b → b.kind = .compound kind members declaration →
          Fails (At source ids) (emitMembers source room'
            (fun left _ target => resolve source left target none) owner members) :=
        fun room' hle owner other b kind members declaration hother hfind hkind =>
          fails_emitMembers closed (fun left hleft target => ih left (by omega) none) owner
            fun m hm => closed.references other b hother hfind _
              ((mem_references_of_compound hkind).mpr ⟨m, hm, rfl⟩)
      refine fails_bind fails_get fun start => ?_
      split
      · exact fails_pure _
      refine fails_pureMove_bind (refers_entry hid) fun entry hentry => ?_
      have hfind := entry_eq_ok.mp hentry
      have hown := closed.own id entry hid hfind
      have next := closed.references id entry hid hfind
      split
      · exact fails_pure _
      refine fails_bind (fails_modify _) fun _ => ?_
      cases hkind : entry.kind with
      | base => exact fails_bind (fails_intern _ _) fun _ => fails_completed _ _
      | compound kind ms declaration =>
        refine fails_bind (fails_pureMove (refers_sizeOf closed _ hown)) fun _ => ?_
        refine fails_bind (fails_intern _ _) fun key => fails_bind (fails_modify _) fun _ => ?_
        exact fails_bind (members room (Nat.le_refl _) _ _ _ _ _ _ hid hfind hkind) fun _ =>
          fails_completed _ _
      | enumeration constants =>
        refine fails_bind (fails_intern _ _) fun key => ?_
        exact fails_bind (fails_emitConstants _ _) fun _ => fails_completed _ _
      | array element extents =>
        exact fails_bind (ih room (by omega) _ (next _ (mem_references_of_array hkind))) fun _ =>
          fails_completed _ _
      | pointer target =>
        cases target with
        | none => exact fails_bind fails_voidSymbol fun _ => fails_completed _ _
        | some target =>
          exact fails_bind (ih room (by omega) _ (next _ (mem_references_of_pointer hkind)))
            fun _ => fails_completed _ _
      | qualified target =>
        cases target with
        | none => exact fails_voidSymbol
        | some target => exact ih room (by omega) _ (next _ (mem_references_of_qualified hkind))
      | typedef target =>
        have htarget : ∀ t, target = some t → ids t := by
          rintro t rfl
          exact next t (mem_references_of_typedef hkind)
        refine fails_pureMove_bind (refers_aliased closed _ htarget) fun behind hbehind => ?_
        have hbare : ∀ b, behind = some b → ∃ other, ids other ∧ source.find? other = some b := by
          rintro b rfl
          cases target with
          | none => cases hbehind
          | some target =>
            exact closed.strips (strips_of_unqualified hbehind) (htarget target rfl) rfl
        cases hfilter : behind.filter (unnamed start) with
        | some bare =>
          obtain ⟨other, hother, hfound⟩ := hbare bare (Option.filter_eq_some_iff.mp hfilter).1
          exact fails_bind (ih room (by omega) _ (closed.own other bare hother hfound)) fun _ =>
            fails_completed _ _
        | none =>
          refine fails_bind (fails_pureMove (refers_sizeOf closed _ hown)) fun _ => ?_
          refine fails_bind (fails_intern _ _) fun key => fails_bind (fails_modify _) fun _ => ?_
          cases target with
          | none =>
            cases hbehind
            exact fails_completed _ _
          | some target =>
            refine fails_bind (ih room (by omega) _ (htarget target rfl)) fun _ => ?_
            cases behind with
            | none => exact fails_completed _ _
            | some b =>
              obtain ⟨other, hother, hfound⟩ := hbare b rfl
              rw [Option.map_some]
              cases hcontent : b.kind with
              | compound kind ms declaration =>
                exact fails_bind (members (room - 1) (by omega) _ _ _ _ _ _ hother hfound hcontent)
                  fun _ => fails_completed _ _
              | enumeration constants =>
                exact fails_bind (fails_emitConstants _ _) fun _ => fails_completed _ _
              | base | array _ _ | pointer _ | qualified _ | typedef _ => exact fails_completed _ _

/-! ## Surveys -/

theorem resolveTop_at {id : EntryId} {start p : Progress} {r : Resolution} {e : Failure}
    (listed : ∀ entry, source.find? id = some entry → entry.awaitsName = false → ids id)
    (h : resolveTop source id start = (some r, p)) (he : r.failure = some e) :
    At source (fun other => other = id ∨ ids other) e := by
  unfold resolveTop at h
  split at h
  · rename_i d heq
    cases h
    cases he
    exact refers_entry (.inl rfl) e heq
  · rename_i entry heq
    split at h
    · cases h
    · rename_i hawaits
      have hid := listed entry (entry_eq_ok.mp heq) (by simpa using hawaits)
      split at h <;> cases h
      · cases he
      · rename_i hresolve
        cases he
        exact (fails_resolve closed _ _ hid _ _ _ hresolve).mono fun _ => .inr

/-- A survey fails at a listed id or at one of the ids that its walks come to. -/
theorem surveyFrom_at (list : List EntryId) (listed : ∀ id ∈ list, ∀ entry,
      source.find? id = some entry → entry.awaitsName = false → ids id) (p : Progress)
    {r : Resolution} {e : Failure} (h : r ∈ (surveyFrom source list p).resolutions)
    (he : r.failure = some e) : At source (fun id => id ∈ list ∨ ids id) e := by
  induction list generalizing p with
  | nil => cases h
  | cons id rest ih =>
    have first : ∀ {start q}, resolveTop source id start = (some r, q) →
        At source (fun other => other ∈ id :: rest ∨ ids other) e := fun htop =>
      (resolveTop_at closed (listed id List.mem_cons_self) htop he).mono fun other hother =>
        hother.imp (fun heq => List.mem_cons.mpr (.inl heq)) (fun h => h)
    have later : ∀ {q}, r ∈ (surveyFrom source rest q).resolutions →
        At source (fun other => other ∈ id :: rest ∨ ids other) e := fun hrest =>
      (ih (fun other hother => listed other (List.mem_cons_of_mem id hother)) _ hrest).mono
        fun other hother => hother.imp (List.mem_cons_of_mem id) (fun h => h)
    unfold surveyFrom at h
    rcases htop : resolveTop source id p with ⟨_ | top, q⟩
    · rw [htop] at h
      exact later h
    · rw [htop] at h
      dsimp only at h
      split at h
      · cases List.mem_singleton.mp h
        exact first htop
      · rcases List.mem_cons.mp h with rfl | h
        · exact first htop
        · exact later h

omit closed

theorem surveyFrom_failure (source : Source) (ids : List EntryId) (p : Progress) {r : Resolution}
    {e : Failure} (h : r ∈ (surveyFrom source ids p).resolutions) (he : r.failure = some e) :
    OfReference e := by
  have all : Closed source fun _ => True :=
    ⟨fun _ _ _ _ => trivial, fun _ _ _ _ _ _ => trivial⟩
  exact (surveyFrom_at all ids (fun _ _ _ _ _ => trivial) p h he).ofReference

end Survey

/-- No survey fails in a way that ends the program. -/
theorem Source.failure?_handled {source : Source} {e : Failure} (h : source.failure? = some e) :
    Pass.handled e = true := by
  obtain ⟨r, hr, he⟩ := List.exists_of_findSome?_eq_some h
  exact (Survey.surveyFrom_failure source source.topLevel {} hr he).handled

end LayoutGraph
