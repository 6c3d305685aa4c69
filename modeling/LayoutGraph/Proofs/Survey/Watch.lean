-- The survey under watch: the same walk, with a record of what it does to the
-- bindings. The record has each id that is bound and each that is resolved, in
-- their order, and what is pending whenever a listed entry is done. It changes
-- nothing: what the watched survey finds is what the survey finds.
import LayoutGraph.Proofs.Chain
import LayoutGraph.Survey.Survey

namespace LayoutGraph.Survey

open Chain

/-! ## The record -/

inductive Watched.Event
  /-- The id was bound to the symbol, with its needs walked or not. -/
  | bound (id : EntryId) (key : SymbolKey)
  /-- A walk from the id came to the symbol. -/
  | resolved (id : EntryId) (key : SymbolKey)
  /-- The walk from a listed id came to its symbol and left the entries pending. -/
  | listed (id : EntryId) (pending : List EntryId)
deriving DecidableEq, Repr, Inhabited

/-- The state of a walk, and the record so far, the latest at the end. -/
structure Watched where
  progress : Progress := {}
  events : List Watched.Event := []
deriving Inhabited

abbrev WatchedWalk := EStateM Failure Watched

/-! ## Moves -/

variable {α β : Type}

/-- A move of which nothing is recorded. -/
def unseen (x : Walk α) : WatchedWalk α := fun w =>
  match x w.progress with
  | .ok a p => .ok a { w with progress := p }
  | .error e p => .error e { w with progress := p }

def see (e : Watched.Event) : WatchedWalk Unit :=
  modify fun w => { w with events := w.events ++ [e] }

def watchReserve (id : EntryId) (key : SymbolKey) : WatchedWalk Unit := do
  unseen (reserve id key)
  see (.bound id key)

def watchComplete (id : EntryId) (key : SymbolKey) : WatchedWalk Unit := do
  unseen (complete id key)
  see (.bound id key)

/-! ## Walks -/

def watchMembers (source : Source) (room : Nat)
    (resolve : (left : Nat) → left ≤ room → EntryId → WatchedWalk SymbolKey) (owner : SymbolKey)
    (members : List Member) : WatchedWalk Unit :=
  members.zipIdx.forM fun (m, place) =>
    let target := m.type
    match h : shapeOf source room target with
    | .error e => throw e
    | .ok shape => do
      let type ← match hg : shape.goal with
        | some goal => resolve goal.room (goal_room_le h hg) goal.entry
        | none => unseen voidSymbol
      unseen <| emit <| .field
        { owner, name := memberName m place, byteOffset := m.byteOffset, type
          extents := shape.extents, bitSize := m.bitSize, bitOffset := m.bitOffset
          pointerDepth := shape.pointerDepth }

/-- The walk from an id, under watch. -/
def watchResolve (source : Source) (room : Nat) (id : EntryId) (name? : Option String) :
    WatchedWalk SymbolKey :=
  match room with
  | 0 => throw (tooDeep id)
  | room + 1 => do
    let start ← unseen get
    let found ← (match start.symbol? id with
      | some key => pure key
      | none => do
        let entry ← unseen (pureMove (source.entry id))
        match boundElsewhere? start id entry with
        | some key => return key
        | none =>
          unseen (emit (.visit id entry.shownName))
          match entry.kind with
          | .base =>
            let name := if entry.anonymous then voidName else entry.shownName
            let key ← unseen (intern name (entry.byteSize.getD 0))
            watchComplete id key
            return key
          | .compound _ members _ =>
            let byteSize ← unseen (pureMove (sizeOf source (room + 1) entry.id))
            let key ← unseen (intern (name?.getD entry.shownName) byteSize)
            watchReserve entry.id key
            watchMembers source room (fun left _ target => watchResolve source left target none)
              key members
            watchComplete entry.id key
            return key
          | .enumeration constants =>
            let key ← unseen (intern (name?.getD entry.shownName) (entry.byteSize.getD 0))
            unseen (emitConstants key constants)
            watchComplete entry.id key
            return key
          | .array element _ =>
            let key ← watchResolve source room element none
            watchComplete id key
            return key
          | .pointer (some target) =>
            let key ← watchResolve source room target none
            watchComplete id key
            return key
          | .pointer none =>
            let key ← unseen voidSymbol
            watchComplete id key
            return key
          | .qualified (some target) => watchResolve source room target name?
          | .qualified none => unseen voidSymbol
          | .typedef target =>
            let behind ← unseen (pureMove (aliased source room target))
            match behind.filter (unnamed start) with
            | some bare =>
              let key ← watchResolve source room bare.id (some entry.shownName)
              watchComplete entry.id key
              return key
            | none =>
              let byteSize ← unseen (pureMove (sizeOf source (room + 1) entry.id))
              let key ← unseen (intern entry.shownName byteSize)
              watchReserve entry.id key
              match target with
              | some target => do
                let _ ← watchResolve source room target none
              | none => pure ()
              match behind.map Entry.kind with
              | some (.compound _ members _) =>
                watchMembers source (room - 1)
                  (fun left _ target => watchResolve source left target none) key members
              | some (.enumeration constants) => unseen (emitConstants key constants)
              | _ => pure ()
              watchComplete entry.id key
              return key)
    see (.resolved id found)
    return found
termination_by room

/-! ## Surveys -/

/-- The state from which the next listed entry is walked. -/
def Watched.restart (w : Watched) : Watched :=
  { w with progress := { w.progress with steps := #[] } }

/-- One listed entry under watch. -/
def watchTop (source : Source) (id : EntryId) (start : Watched) : Option Resolution × Watched :=
  match source.entry id with
  | .error e => (some { entry := id, failure := some e }, start)
  | .ok entry =>
    if entry.awaitsName then (none, start)
    else
      match watchResolve source fullRoom id none start.restart with
      | .ok _ w => (some { entry := id, steps := w.progress.steps },
          { w with events := w.events ++ [.listed id w.progress.pending] })
      | .error e w => (some { entry := id, steps := w.progress.steps, failure := some e }, w)

/-- What the survey of the listed entries finds, and the record of it. -/
def watchFrom (source : Source) : List EntryId → Watched → Findings × List Watched.Event
  | [], w => (⟨[], w.progress.bindings.length⟩, w.events)
  | id :: rest, w =>
    let (resolution, w) := watchTop source id w
    match resolution with
    | none => watchFrom source rest w
    | some r =>
      if r.failure.isSome then (⟨[r], w.progress.bindings.length⟩, w.events)
      else
        let (later, events) := watchFrom source rest w
        ({ later with resolutions := r :: later.resolutions }, events)

def watch (source : Source) : Findings × List Watched.Event := watchFrom source source.topLevel {}

/-! ## The watch changes nothing -/

/-- Seen by its state alone, the work under watch is the work. -/
def Shadows (x : WatchedWalk α) (y : Walk α) : Prop := SeenAlike Watched.progress id x y

theorem shadows_unseen (x : Walk α) : Shadows (unseen x) x := by
  intro w p hp
  have hp : w.progress = p := hp
  subst hp
  unfold unseen
  cases x w.progress <;> rfl

theorem shadows_see (e : Watched.Event) : Shadows (see e) (pure ()) :=
  fun _ _ h => congrArg (EStateM.Result.ok ()) h

theorem shadows_pure (a : α) : Shadows (pure a) (pure a) := seenAlike_pure a

theorem shadows_throw (e : Failure) : Shadows (throw e : WatchedWalk α) (throw e) :=
  seenAlike_throw e

theorem shadows_bind {x : WatchedWalk α} {y : Walk α} {f : α → WatchedWalk β} {g : α → Walk β}
    (h : Shadows x y) (next : ∀ a, Shadows (f a) (g a)) : Shadows (x >>= f) (y >>= g) :=
  seenAlike_bind h next

/-- Both works, apart from where they come from. -/
theorem shadows_apart {x : WatchedWalk α} {y : Walk α}
    (h : ∀ x' y', x' = x → y' = y → Shadows x' y') : Shadows x y := h x y rfl rfl

/-- What is recorded behind some work does not show. -/
theorem shadows_bind_see {x : WatchedWalk α} {y : Walk α} (h : Shadows x y)
    (e : α → Watched.Event) : Shadows (do let a ← x; see (e a); return a) y := by
  have hbind : Shadows (do let a ← x; see (e a); return a) (y >>= pure) :=
    shadows_bind h fun a => shadows_bind (shadows_see (e a)) fun _ => shadows_pure a
  rwa [bind_pure] at hbind

theorem shadows_watchReserve (id : EntryId) (key : SymbolKey) :
    Shadows (watchReserve id key) (reserve id key) :=
  shadows_bind_see (shadows_unseen (reserve id key)) fun _ => .bound id key

theorem shadows_watchComplete (id : EntryId) (key : SymbolKey) :
    Shadows (watchComplete id key) (complete id key) :=
  shadows_bind_see (shadows_unseen (complete id key)) fun _ => .bound id key

/-- The entry is complete, and its symbol is returned. -/
theorem shadows_completed (id : EntryId) (key : SymbolKey) :
    Shadows (do watchComplete id key; pure key) (do complete id key; return key) :=
  shadows_bind (shadows_watchComplete id key) fun _ => shadows_pure key

theorem shadows_watchMembers {source : Source} {room : Nat}
    {resolve : (left : Nat) → left ≤ room → EntryId → Walk SymbolKey}
    {watched : (left : Nat) → left ≤ room → EntryId → WatchedWalk SymbolKey}
    (h : ∀ left hle id, Shadows (watched left hle id) (resolve left hle id)) (owner : SymbolKey)
    (members : List Member) : Shadows (watchMembers source room watched owner members)
      (emitMembers source room resolve owner members) := by
  unfold watchMembers emitMembers
  refine seenAlike_forM (fun (m, place) => shadows_apart fun x y hx hy => ?_) _
  dsimp only at hx hy
  split at hx
  · rename_i e hshape
    subst hx
    split at hy
    · rename_i e' hshape'
      cases hshape.symm.trans hshape'
      exact hy ▸ shadows_throw e
    · rename_i hshape'
      cases hshape.symm.trans hshape'
  · rename_i shape hshape
    split at hy
    · rename_i hshape'
      cases hshape.symm.trans hshape'
    · rename_i shape' hshape'
      cases hshape.symm.trans hshape'
      split at hx
      · rename_i goal hgoal
        subst hx
        split at hy
        · rename_i goal' hgoal'
          cases hgoal.symm.trans hgoal'
          exact hy ▸ shadows_bind (h _ _ _) fun type => shadows_unseen _
        · rename_i hgoal'
          cases hgoal.symm.trans hgoal'
      · rename_i hgoal
        subst hx
        split at hy
        · rename_i goal' hgoal'
          cases hgoal.symm.trans hgoal'
        · exact hy ▸ shadows_bind (shadows_unseen _) fun type => shadows_unseen _

theorem shadows_watchResolve (source : Source) (room : Nat) (id : EntryId) (name? : Option String) :
    Shadows (watchResolve source room id name?) (resolve source room id name?) := by
  induction room using Nat.strongRecOn generalizing id name? with
  | ind room ih =>
    unfold watchResolve resolve
    cases room with
    | zero => exact shadows_throw _
    | succ room =>
      have members (left : Nat) (hleft : left ≤ room) (key : SymbolKey) (ms : List Member) :
          Shadows
            (watchMembers source left (fun less _ target => watchResolve source less target none)
              key ms)
            (emitMembers source left (fun less _ target => resolve source less target none)
              key ms) :=
        shadows_watchMembers (fun less hless target => ih less (by omega) target none) key ms
      refine shadows_bind (shadows_unseen get) fun start =>
        shadows_bind_see ?_ fun key => .resolved id key
      cases start.symbol? id with
      | some key => exact shadows_pure key
      | none =>
        refine shadows_bind (shadows_unseen _) fun entry => ?_
        cases boundElsewhere? start id entry with
        | some key => exact shadows_pure key
        | none =>
          refine shadows_bind (shadows_unseen _) fun _ => ?_
          cases entry.kind with
          | base => exact shadows_bind (shadows_unseen _) fun key => shadows_completed id key
          | compound kind ms declaration =>
            refine shadows_bind (shadows_unseen _) fun byteSize =>
              shadows_bind (shadows_unseen _) fun key =>
                shadows_bind (shadows_watchReserve _ key) fun _ =>
                  shadows_bind ?_ fun _ => shadows_completed _ key
            exact members room (Nat.le_refl _) key ms
          | enumeration constants =>
            exact shadows_bind (shadows_unseen _) fun key =>
              shadows_bind (shadows_unseen _) fun _ => shadows_completed _ key
          | array element extents =>
            exact shadows_bind (ih room (by omega) element none) fun key => shadows_completed id key
          | pointer target =>
            cases target with
            | some target =>
              exact shadows_bind (ih room (by omega) target none)
                fun key => shadows_completed id key
            | none => exact shadows_bind (shadows_unseen _) fun key => shadows_completed id key
          | qualified target =>
            cases target with
            | some target => exact ih room (by omega) target name?
            | none => exact shadows_unseen _
          | typedef target =>
            refine shadows_bind (shadows_unseen _) fun behind => ?_
            dsimp only
            cases behind.filter (unnamed start) with
            | some bare =>
              exact shadows_bind (ih room (by omega) bare.id _) fun key => shadows_completed _ key
            | none =>
              refine shadows_bind (shadows_unseen _) fun byteSize =>
                shadows_bind (shadows_unseen _) fun key =>
                  shadows_bind (shadows_watchReserve _ key) fun _ => ?_
              have content : Shadows
                  (do
                    match behind.map Entry.kind with
                    | some (.compound _ ms _) =>
                      watchMembers source (room - 1)
                        (fun left _ target => watchResolve source left target none) key ms
                    | some (.enumeration constants) => unseen (emitConstants key constants)
                    | _ => pure ()
                    watchComplete entry.id key
                    return key)
                  (do
                    match behind.map Entry.kind with
                    | some (.compound _ ms _) =>
                      emitMembers source (room - 1)
                        (fun left _ target => resolve source left target none) key ms
                    | some (.enumeration constants) => emitConstants key constants
                    | _ => pure ()
                    complete entry.id key
                    return key) := by
                split
                · exact shadows_bind (members _ (Nat.sub_le _ _) key _) fun _ =>
                    shadows_completed _ key
                · exact shadows_bind (shadows_unseen _) fun _ => shadows_completed _ key
                · exact shadows_completed _ key
              cases target with
              | some target => exact shadows_bind (ih room (by omega) target none) fun _ => content
              | none => exact content

theorem watchTop_eq (source : Source) (id : EntryId) (start : Watched) :
    (watchTop source id start).1 = (resolveTop source id start.progress).1 ∧
      (watchTop source id start).2.progress = (resolveTop source id start.progress).2 := by
  unfold watchTop resolveTop
  cases source.entry id with
  | error e => exact ⟨rfl, rfl⟩
  | ok entry =>
    dsimp only
    split
    · exact ⟨rfl, rfl⟩
    · have same := shadows_watchResolve source fullRoom id none start.restart _ rfl
      cases hwatched : watchResolve source fullRoom id none start.restart with
      | ok key w =>
        rw [hwatched] at same
        obtain ⟨p, hp, rfl⟩ := onState_eq_ok.mp same.symm
        rw [show resolve source fullRoom id none { start.progress with steps := #[] } = _ from hp]
        exact ⟨rfl, rfl⟩
      | error e w =>
        rw [hwatched] at same
        obtain ⟨p, hp, rfl⟩ := onState_eq_error.mp same.symm
        rw [show resolve source fullRoom id none { start.progress with steps := #[] } = _ from hp]
        exact ⟨rfl, rfl⟩

theorem watchFrom_findings (source : Source) (ids : List EntryId) (start : Watched) :
    (watchFrom source ids start).1 = surveyFrom source ids start.progress := by
  induction ids generalizing start with
  | nil => rfl
  | cons id rest ih =>
    obtain ⟨hresolution, hnext⟩ := watchTop_eq source id start
    unfold watchFrom surveyFrom
    generalize watchTop source id start = top at hresolution hnext ⊢
    generalize resolveTop source id start.progress = plain at hresolution hnext ⊢
    obtain ⟨resolution, next⟩ := top
    obtain ⟨_, _⟩ := plain
    cases hresolution
    cases hnext
    cases resolution with
    | none => exact ih next
    | some r =>
      dsimp only
      split
      · rfl
      · rw [← ih next]

theorem watch_findings (source : Source) : (watch source).1 = survey source :=
  watchFrom_findings source source.topLevel {}

end LayoutGraph.Survey
