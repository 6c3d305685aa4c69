-- Walks that have room. Each reference that is followed takes room, and so
-- does each entry of a nest. A walk that starts with room for its chain and
-- for all that can still be opened ends well, so the survey has no failure.
import LayoutGraph.Proofs.Chain
import LayoutGraph.Proofs.Survey.Nesting
import LayoutGraph.Proofs.Survey.Progress
import LayoutGraph.Proofs.Survey.Yield

namespace LayoutGraph.Survey

open Chain

variable {source : Source}

/-! ## Open entries -/

/-- The entries of a nest are bound. -/
def Opened (nest : List Entry) (p : Progress) : Prop :=
  ∀ e ∈ nest, (p.symbol? e.id).isSome

theorem Opened.mono {nest : List Entry} {p q : Progress} (h : Opened nest p) (later : Extends p q) :
    Opened nest q := fun e he => later.bound _ (h e he)

theorem Opened.bind {nest : List Entry} {p : Progress} (h : Opened nest p) (e : Entry)
    (b : Binding) : Opened (e :: nest) (p.bind e.id b) := by
  intro other hother
  rcases List.mem_cons.mp hother with rfl | hother
  · rw [Progress.symbol?_bind, if_pos rfl]
    rfl
  · exact h.mono (.bind p e.id b) other hother

theorem Opened.not_mem {nest : List Entry} {p : Progress} (h : Opened nest p) {e : Entry}
    (hnot : p.symbol? e.id = none) : e.id ∉ nest.map Entry.id := by
  intro hmem
  obtain ⟨other, hother, heq⟩ := List.mem_map.mp hmem
  have hbound := h other hother
  rw [heq, hnot] at hbound
  cases hbound

/-! ## Chains that have room -/

theorem unqualified_ok {hops room : Nat} {id : EntryId} (h : EndsWithin source hops id)
    (hroom : hops + 1 ≤ room) : ∃ behind, unqualified source room id = .ok behind := by
  induction room generalizing hops id with
  | zero => omega
  | succ room ih =>
    obtain ⟨e, hfind⟩ := h.found
    unfold unqualified
    rw [entry_eq_ok.mpr hfind]
    dsimp only [bind, Except.bind]
    split
    · rename_i hkind
      obtain ⟨fewer, rfl, later⟩ := h.next hfind (Wraps.qualified hkind).next?
      exact ih later (by omega)
    · exact ⟨_, rfl⟩
    · exact ⟨_, rfl⟩

/-- The goal of a shape is as much nearer the end of the chain as it has less room. -/
theorem shapeFrom_ok {hops room : Nat} {id : EntryId} {crossed : Shape}
    (h : EndsWithin source hops id) (hroom : hops + 1 ≤ room) (start : crossed.goal = none) :
    ∃ shape, shapeFrom source room crossed id = .ok shape ∧
      ∀ goal, shape.goal = some goal →
        ∃ fewer, EndsWithin source fewer goal.entry ∧ room + fewer ≤ goal.room + hops := by
  induction room generalizing hops id crossed with
  | zero => omega
  | succ room ih =>
    obtain ⟨e, hfind⟩ := h.found
    unfold shapeFrom
    rw [entry_eq_ok.mpr hfind]
    dsimp only [bind, Except.bind, pure, Except.pure]
    have stops : ∀ goal : Goal, some ⟨id, room + 1⟩ = some goal →
        ∃ fewer, EndsWithin source fewer goal.entry ∧ room + 1 + fewer ≤ goal.room + hops := by
      rintro goal ⟨⟩
      exact ⟨hops, h, Nat.le_refl _⟩
    have goesOn : ∀ {target : EntryId} {crossed : Shape}, e.next? = some target →
        crossed.goal = none → ∃ shape, shapeFrom source room crossed target = .ok shape ∧
          ∀ goal, shape.goal = some goal →
            ∃ fewer, EndsWithin source fewer goal.entry ∧ room + 1 + fewer ≤ goal.room + hops := by
      intro target crossed hnext start
      obtain ⟨fewer, rfl, later⟩ := h.next hfind hnext
      obtain ⟨shape, hshape, hgoal⟩ := ih later (by omega) start
      refine ⟨shape, hshape, fun goal hg => ?_⟩
      obtain ⟨least, hends, hle⟩ := hgoal goal hg
      exact ⟨least, hends, by omega⟩
    split
    · rename_i hkind
      exact goesOn (Wraps.qualified hkind).next? start
    · exact ⟨crossed, rfl, by simp [start]⟩
    · rename_i hkind
      split
      · exact goesOn (Wraps.array hkind).next? start
      · exact ⟨_, rfl, stops⟩
    · rename_i hkind
      split
      · exact goesOn (Wraps.pointer hkind).next? start
      · exact ⟨_, rfl, by simp [start]⟩
    · exact ⟨_, rfl, stops⟩

theorem sizeOf_ok {hops room : Nat} {id : EntryId} (h : EndsWithin source hops id)
    (sized : ∀ e, ComesBy source id e → ∀ kind members declaration,
      e.kind = .compound kind members declaration → e.byteSize.isSome)
    (hroom : hops + 1 ≤ room) : ∃ size, sizeOf source room id = .ok size := by
  induction room generalizing hops id with
  | zero => omega
  | succ room ih =>
    obtain ⟨e, hfind⟩ := h.found
    unfold sizeOf
    rw [entry_eq_ok.mpr hfind]
    dsimp only [bind, Except.bind, pure, Except.pure]
    have goesOn : ∀ {target : EntryId}, e.next? = some target →
        ∃ size, sizeOf source room target = .ok size := by
      intro target hnext
      obtain ⟨fewer, rfl, later⟩ := h.next hfind hnext
      exact ih later (fun c hc => sized c (.next hfind hnext hc)) (by omega)
    split
    · exact ⟨_, rfl⟩
    · rename_i hnone
      split
      · exact ⟨0, rfl⟩
      · exact ⟨0, rfl⟩
      · exact ⟨0, rfl⟩
      · rename_i hkind
        have hsome := sized e (.here hfind) _ _ _ hkind
        rw [hnone] at hsome
        cases hsome
      · rename_i hkind
        obtain ⟨size, hsize⟩ := goesOn (Wraps.array hkind).next?
        exact ⟨_, by rw [hsize]⟩
      · rename_i hkind
        exact goesOn (next?_typedef hkind)
      · rename_i hkind
        exact goesOn (Wraps.qualified hkind).next?
      · exact ⟨0, rfl⟩
      · exact ⟨0, rfl⟩

/-! ## Walks that have room -/

/-- The room that a walk needs with a nest open: for each entry that can still be opened a chain
that leads to it, and for the chain that the walk is on. -/
def need (hops depth : Nat) (nest : List Entry) (left : Nat) : Nat :=
  (depth - nest.length) * (hops + 2) + left + 1

/-- Opening an entry sets room free. -/
theorem need_cons {hops depth left : Nat} {nest : List Entry} {e : Entry}
    (h : (e :: nest).length ≤ depth) :
    need hops depth nest left = need hops depth (e :: nest) (hops + 2 + left) := by
  unfold need
  obtain ⟨more, rfl⟩ := Nat.exists_eq_add_of_le h
  rw [List.length_cons, Nat.add_sub_cancel_left,
    show nest.length + 1 + more - nest.length = more + 1 by omega, Nat.succ_mul]
  omega

/-- Every walk goes well that needs no more than that room. -/
def Roomy (source : Source) (hops depth room : Nat) : Prop :=
  ∀ ⦃id : EntryId⦄ ⦃nest : List Entry⦄ ⦃left : Nat⦄, EndsWithin source left id →
    Stands source nest id → need hops depth nest left ≤ room →
    ∀ name?, Succeeds (Opened nest) (Opened nest) (resolve source room id name?)

section Moves

variable {nest : List Entry}

theorem succeeds_emit (s : Step) : Succeeds (Opened nest) (Opened nest) (emit s) :=
  succeeds_modify fun p hp => hp.mono (.push p s)

theorem succeeds_pureMove_bind {α β : Type} {x : Except Failure α} {a : α} (h : x = .ok a)
    {f : α → Walk β} (hf : Succeeds (Opened nest) (Opened nest) (f a)) :
    Succeeds (Opened nest) (Opened nest) (pureMove x >>= f) := by
  intro p hp
  subst h
  exact hf p hp

theorem succeeds_intern (name : String) (byteSize : Nat) :
    Succeeds (Opened nest) (Opened nest) (intern name byteSize) :=
  succeeds_bind (succeeds_emit _) fun _ => succeeds_pure (fun _ hp => hp) _

theorem succeeds_voidSymbol : Succeeds (Opened nest) (Opened nest) voidSymbol := by
  unfold voidSymbol
  refine succeeds_get_bind fun p _ => ?_
  split
  · exact succeeds_pure (fun _ hp => hp) _
  · exact succeeds_bind (succeeds_intern _ _) fun key =>
      succeeds_bind (succeeds_modify fun _ hp => hp) fun _ => succeeds_pure (fun _ hp => hp) key

theorem succeeds_emitConstants (key : SymbolKey) (constants : List Constant) :
    Succeeds (Opened nest) (Opened nest) (emitConstants key constants) :=
  succeeds_forM constants fun c _ => succeeds_emit (.enumerator key c)

/-- An entry that was opened is bound. -/
theorem succeeds_reserve (e : Entry) (key : SymbolKey) :
    Succeeds (Opened nest) (Opened (e :: nest)) (reserve e.id key) :=
  succeeds_modify fun _ hp => hp.bind e _

/-- An entry is bound for good, and what was opened for it is closed. -/
theorem succeeds_completed {inner : List Entry} (hsub : nest ⊆ inner) (id : EntryId)
    (key : SymbolKey) :
    Succeeds (Opened inner) (Opened nest) (do complete id key; return key) :=
  succeeds_bind (succeeds_modify fun p hp => hp.mono (.bind p id _)) fun _ =>
    succeeds_pure (fun _ hp e he => hp e (hsub he)) key

theorem succeeds_emitMembers {hops room : Nat}
    {resolve : (left : Nat) → left ≤ room → EntryId → Walk SymbolKey}
    {members : List Member} (ends : ∀ m ∈ members, EndsWithin source hops m.type)
    (hroom : hops + 1 ≤ room)
    (hresolve : ∀ m ∈ members, ∀ goal, (∀ e, ComesBy source goal e → ComesBy source m.type e) →
      ∀ fewer, EndsWithin source fewer goal → ∀ left hle, room + fewer ≤ left + hops →
        Succeeds (Opened nest) (Opened nest) (resolve left hle goal))
    (owner : SymbolKey) :
    Succeeds (Opened nest) (Opened nest) (emitMembers source room resolve owner members) := by
  refine succeeds_forM _ fun c hc => ?_
  obtain ⟨m, place⟩ := c
  have hm : m ∈ members := List.fst_mem_of_mem_zipIdx hc
  obtain ⟨shape, hshape, hgoal⟩ :=
    shapeFrom_ok (ends m hm) hroom (show ({} : Shape).goal = none from rfl)
  dsimp only
  split
  · rename_i e heq
    cases hshape.symm.trans heq
  · rename_i other heq
    cases hshape.symm.trans heq
    split
    · rename_i goal hg
      obtain ⟨fewer, later, hle⟩ := hgoal goal hg
      have hleads := leads_of_shapeOf heq
      rw [hg] at hleads
      refine succeeds_bind ?_ fun type => succeeds_emit _
      exact hresolve m hm goal.entry (fun e => hleads.comesBy rfl) fewer later goal.room _ hle
    · exact succeeds_bind succeeds_voidSymbol fun type => succeeds_emit _

end Moves

/-- An entry that was bound neither under the id nor under its own is not bound. -/
theorem absent_of_boundElsewhere? {p : Progress} {id : EntryId} {e : Entry}
    (habsent : p.symbol? id = none) (h : boundElsewhere? p id e = none) :
    p.symbol? e.id = none := by
  unfold boundElsewhere? at h
  split at h
  · rename_i heq
    rw [heq]
    exact habsent
  · exact h

/-- The members of an open entry are walked inside of it. -/
theorem succeeds_members {hops depth room : Nat} (shallow : Shallow source hops depth)
    {nest : List Entry} {e b : Entry} (nested : Nested source (e :: nest)) (he : source.Reaches e)
    (lends : Lends source e b) {kind : CompoundKind} {members : List Member} {declaration : Bool}
    (hkind : b.kind = .compound kind members declaration)
    (enough : need hops depth (e :: nest) hops ≤ room)
    (walks : ∀ left ≤ room, Roomy source hops depth left) (owner : SymbolKey) :
    Succeeds (Opened (e :: nest)) (Opened (e :: nest))
      (emitMembers source room (fun left _ target => resolve source left target none) owner
        members) := by
  have starts : ∀ m ∈ members, Starts source e m.type := by
    intro m hm
    refine ⟨b, lends, ?_⟩
    simp only [Entry.references, hkind]
    exact List.mem_map_of_mem hm
  unfold need at enough
  refine succeeds_emitMembers
    (fun m hm => shallow.ends m.type (reachable_of_starts he (starts m hm))) (by omega) ?_ owner
  intro m hm goal hsub fewer later left hle hleft
  have stands := (stands_inner nested he (starts m hm)).mono hsub
  exact walks left hle later stands (by unfold need; omega) none

/-- An entry that waits for the name of a typedef is walked under its own id. -/
theorem succeeds_bare {hops depth room : Nat} (coherent : source.Coherent)
    (walks : Roomy source hops depth room) {nest : List Entry} {target : EntryId} {bare : Entry}
    (stands : Stands source nest target) (strips : Strips source target (some bare))
    {p : Progress} (hunnamed : unnamed p bare = true) (enough : need hops depth nest 0 ≤ room)
    (name? : Option String) :
    Succeeds (Opened nest) (Opened nest) (resolve source room bare.id name?) := by
  have comes := strips.comesBy rfl
  obtain ⟨under, -, hunder⟩ := stands.reached bare comes
  have own := coherent under bare hunder
  have last : EndsWithin source 0 bare.id := .stop own (next?_of_unnamed hunnamed)
  exact walks last (stands.mono fun _ => comes.trans own) enough name?

/-- No walk runs out of room that has as much as it needs. -/
theorem roomy_of_shallow {hops depth : Nat} (coherent : source.Coherent)
    (shallow : Shallow source hops depth) (room : Nat) : Roomy source hops depth room := by
  induction room using Nat.strongRecOn with
  | ind room ih =>
    intro id nest left ends stands enough name?
    obtain ⟨room, rfl⟩ : ∃ n, room = n + 1 := ⟨room - 1, by unfold need at enough; omega⟩
    have walks : ∀ left ≤ room, Roomy source hops depth left :=
      fun left hle => ih left (Nat.lt_succ_of_le hle)
    obtain ⟨e, hfind⟩ := ends.found
    have own := coherent id e hfind
    have reached : source.Reaches e := stands.reached e (.here hfind)
    obtain ⟨size, hsize⟩ : ∃ size, sizeOf source (room + 1) e.id = .ok size := by
      refine sizeOf_ok (ends.congr hfind own) (fun c hc => ?_) (by unfold need at enough; omega)
      exact shallow.sized c (stands.reached c (hc.congr own hfind))
    -- The walk goes on along the chain, with one entry less to come.
    have goesOn : ∀ {target : EntryId} {name? : Option String}, e.next? = some target →
        Succeeds (Opened nest) (Opened nest) (resolve source room target name?) := by
      intro target name? hnext
      obtain ⟨fewer, rfl, later⟩ := ends.next hfind hnext
      refine walks room (Nat.le_refl _) later (stands.next hfind hnext) ?_ name?
      unfold need at enough ⊢
      omega
    have completed : ∀ {id : EntryId} {key : SymbolKey},
        Succeeds (Opened nest) (Opened nest) (do complete id key; return key : Walk SymbolKey) :=
      succeeds_completed (List.Subset.refl nest) _ _
    have closed : ∀ {key : SymbolKey}, Succeeds (Opened (e :: nest)) (Opened nest)
        (do complete e.id key; return key : Walk SymbolKey) :=
      succeeds_completed (List.subset_cons_self e nest) _ _
    unfold resolve
    refine succeeds_get_bind fun p opened => ?_
    split
    · exact succeeds_pure (fun _ hp => hp) _
    rename_i habsent
    refine succeeds_pureMove_bind (entry_eq_ok.mpr hfind) ?_
    split
    · exact succeeds_pure (fun _ hp => hp) _
    rename_i helsewhere
    -- An entry that is not bound is in no nest, so it can be opened inside of this one.
    have opens : e.opens → Nested source (e :: nest) := fun hopens =>
      stands.inside e (.here hfind) hopens
        (opened.not_mem (absent_of_boundElsewhere? habsent helsewhere))
    refine succeeds_bind (succeeds_emit _) fun _ => ?_
    cases hkind : e.kind with
    | base => exact succeeds_bind (succeeds_intern _ _) fun _ => completed
    | compound kind members declaration =>
      have nested := opens (by simp [Entry.opens, hkind])
      rw [need_cons (shallow.nests _ nested)] at enough
      refine succeeds_pureMove_bind hsize ?_
      refine succeeds_bind (succeeds_intern _ _) fun key =>
        succeeds_bind (succeeds_reserve e key) fun _ => ?_
      refine succeeds_bind (succeeds_members shallow nested reached .own hkind ?_ walks key)
        fun _ => closed
      unfold need at enough ⊢
      omega
    | enumeration constants =>
      refine succeeds_bind (succeeds_intern _ _) fun key => ?_
      exact succeeds_bind (succeeds_emitConstants _ _) fun _ => completed
    | array element extents =>
      exact succeeds_bind (goesOn (Wraps.array hkind).next?) fun _ => completed
    | pointer target =>
      cases target with
      | some target => exact succeeds_bind (goesOn (Wraps.pointer hkind).next?) fun _ => completed
      | none => exact succeeds_bind succeeds_voidSymbol fun _ => completed
    | qualified target =>
      cases target with
      | some target => exact goesOn (Wraps.qualified hkind).next?
      | none => exact succeeds_voidSymbol
    | typedef target =>
      have hnext := next?_typedef hkind
      have nested := opens (by simp [Entry.opens, hkind])
      cases target with
      | none =>
        refine succeeds_pureMove_bind rfl (succeeds_pureMove_bind hsize ?_)
        exact succeeds_bind (succeeds_intern _ _) fun key =>
          succeeds_bind (succeeds_reserve e key) fun _ => closed
      | some target =>
        obtain ⟨fewer, rfl, later⟩ := ends.next hfind hnext
        obtain ⟨behind, hbehind⟩ : ∃ behind, unqualified source room target = .ok behind :=
          unqualified_ok later (by unfold need at enough; omega)
        have strips := strips_of_unqualified hbehind
        refine succeeds_pureMove_bind hbehind ?_
        cases hbare : behind.filter (unnamed p) with
        | some bare =>
          obtain ⟨rfl, hunnamed⟩ := Option.filter_eq_some_iff.mp hbare
          refine succeeds_bind (succeeds_bare coherent (walks room (Nat.le_refl _))
            (stands.next hfind hnext) strips hunnamed ?_ _) fun _ => completed
          unfold need at enough ⊢
          omega
        | none =>
          rw [need_cons (shallow.nests _ nested)] at enough
          have htarget : Starts source e target := ⟨e, .own, Entry.mem_references_of_next? hnext⟩
          refine succeeds_pureMove_bind hsize ?_
          refine succeeds_bind (succeeds_intern _ _) fun key =>
            succeeds_bind (succeeds_reserve e key) fun _ => ?_
          refine succeeds_bind (walks room (Nat.le_refl _) later
            (stands_inner nested reached htarget) ?_ none) fun _ => ?_
          · unfold need at enough ⊢
            omega
          cases behind with
          | none => exact closed
          | some b =>
            rw [Option.map_some]
            cases hb : b.kind with
            | compound kind members declaration =>
              refine succeeds_bind (succeeds_members shallow nested reached (.typedef hkind strips)
                hb ?_ (fun left hle => walks left (by omega)) key) fun _ => closed
              unfold need at enough ⊢
              omega
            | enumeration constants =>
              exact succeeds_bind (succeeds_emitConstants _ _) fun _ => closed
            | base | array _ _ | pointer _ | qualified _ | typedef _ => exact closed

/-! ## Surveys that have room -/

theorem resolveTop_of_shallow {hops depth : Nat} (coherent : source.Coherent)
    (shallow : Shallow source hops depth) (enough : need hops depth [] hops ≤ fullRoom)
    {id : EntryId} (hid : source.Reachable id) (start : Progress) {r : Resolution}
    (hr : (resolveTop source id start).1 = some r) : r.failure = none := by
  obtain ⟨e, hfind⟩ := (shallow.ends id hid).found
  have walk : Succeeds (Opened []) (Opened []) (resolve source fullRoom id none) :=
    roomy_of_shallow coherent shallow fullRoom (shallow.ends id hid) (stands_outer hid) enough none
  obtain ⟨key, q, hresolve, -⟩ := walk { start with steps := #[] } nofun
  unfold resolveTop at hr
  rw [entry_eq_ok.mpr hfind, hresolve] at hr
  dsimp only at hr
  split at hr
  · cases hr
  · cases hr
    rfl

theorem surveyFrom_of_shallow {hops depth : Nat} (coherent : source.Coherent)
    (shallow : Shallow source hops depth) (enough : need hops depth [] hops ≤ fullRoom)
    (ids : List EntryId) (hids : ∀ id ∈ ids, source.Reachable id) (start : Progress) :
    failureOf (surveyFrom source ids start).resolutions = none := by
  induction ids generalizing start with
  | nil => rfl
  | cons id rest ih =>
    have later := fun p => ih (fun other h => hids other (List.mem_cons_of_mem _ h)) p
    have top := fun {r} =>
      resolveTop_of_shallow coherent shallow enough (hids id List.mem_cons_self) start (r := r)
    unfold surveyFrom
    rcases htop : resolveTop source id start with ⟨_ | r, next⟩
    · exact later next
    · have hr : r.failure = none := top (by rw [htop])
      dsimp only
      rw [hr]
      refine failureOf_eq_none.mpr fun s hs => ?_
      rcases List.mem_cons.mp hs with rfl | hs
      · exact hr
      · exact failureOf_eq_none.mp (later next) s hs

/-- A source whose nests need no more room than there is has no failure. -/
theorem failure?_of_shallow {hops depth : Nat} (coherent : source.Coherent)
    (shallow : Shallow source hops depth) (enough : need hops depth [] hops ≤ fullRoom) :
    source.failure? = none :=
  surveyFrom_of_shallow coherent shallow enough source.topLevel (fun _ => .listed) {}

end LayoutGraph.Survey
