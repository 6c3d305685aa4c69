-- A walk as a derivation. Each rule is one way in which a walk goes well:
-- from which state it starts, which walks it makes on the way, and which
-- symbol and state it ends with. The limit on chains does not show in it.
import LayoutGraph.Proofs.Survey.Progress
import LayoutGraph.Proofs.Survey.Reference

namespace LayoutGraph.Survey

open Chain

/-- The field of a member, given what its type comes to. -/
def memberStep (owner : SymbolKey) (m : Member) (place : Nat) (type : SymbolKey)
    (extents : List Nat) (pointers : Nat) : FieldStep where
  owner
  name := memberName m place
  byteOffset := m.byteOffset
  type
  extents
  bitSize := m.bitSize
  bitOffset := m.bitOffset
  pointerDepth := pointers

/-- The entry answers for the id, and neither was bound. -/
structure Fresh (source : Source) (p : Progress) (id : EntryId) (e : Entry) : Prop where
  absent : p.symbol? id = none
  found : source.find? id = some e
  elsewhere : boundElsewhere? p id e = none

/-! ## Derivations -/

/-- What a walk has to do. -/
inductive Task
  /-- The symbol of an entry, under the name that a typedef gives it. -/
  | entry (id : EntryId) (name? : Option String)
  /-- Members with their places, as fields of an owner. -/
  | members (owner : SymbolKey) (members : List (Member × Nat))
  /-- What a typedef takes over from the entry behind its target. -/
  | content (owner : SymbolKey) (behind : Option Entry)

inductive Walks (source : Source) : Task → Progress → SymbolKey → Progress → Prop
  | bound {id : EntryId} {name? : Option String} {p : Progress} {key : SymbolKey} :
    p.symbol? id = some key → Walks source (.entry id name?) p key p
  | elsewhere {id : EntryId} {name? : Option String} {e : Entry} {p : Progress} {key : SymbolKey} :
    source.find? id = some e → p.symbol? e.id = some key → Walks source (.entry id name?) p key p
  | base {id : EntryId} {name? : Option String} {e : Entry} {p : Progress} {key : SymbolKey} :
    Fresh source p id e → e.kind = .base →
    key = ⟨if e.anonymous then voidName else e.shownName, e.byteSize.getD 0⟩ →
    Walks source (.entry id name?) p key
      (((p.visit id e).push (.symbol key)).bind id ⟨key, true⟩)
  | compound {id : EntryId} {name? : Option String} {e : Entry} {p q : Progress} {key : SymbolKey}
    {kind : CompoundKind} {members : List Member} {declaration : Bool} :
    Fresh source p id e → e.kind = .compound kind members declaration →
    key.name = name?.getD e.shownName → sizeOf source fullRoom e.id = .ok key.byteSize →
    Walks source (.members key members.zipIdx) (p.enter id e key) key q →
    Walks source (.entry id name?) p key (q.bind e.id ⟨key, true⟩)
  | enumeration {id : EntryId} {name? : Option String} {e : Entry} {p : Progress} {key : SymbolKey}
    {constants : List Constant} :
    Fresh source p id e → e.kind = .enumeration constants →
    key = ⟨name?.getD e.shownName, e.byteSize.getD 0⟩ →
    Walks source (.entry id name?) p key
      ((((p.visit id e).push (.symbol key)).pushConstants key constants).bind e.id ⟨key, true⟩)
  | array {id element : EntryId} {name? : Option String} {e : Entry} {p q : Progress}
    {key : SymbolKey} {extents : List Nat} :
    Fresh source p id e → e.kind = .array element extents →
    Walks source (.entry element none) (p.visit id e) key q →
    Walks source (.entry id name?) p key (q.bind id ⟨key, true⟩)
  | pointer {id target : EntryId} {name? : Option String} {e : Entry} {p q : Progress}
    {key : SymbolKey} :
    Fresh source p id e → e.kind = .pointer (some target) →
    Walks source (.entry target none) (p.visit id e) key q →
    Walks source (.entry id name?) p key (q.bind id ⟨key, true⟩)
  | pointerVoid {id : EntryId} {name? : Option String} {e : Entry} {p : Progress} :
    Fresh source p id e → e.kind = .pointer none →
    Walks source (.entry id name?) p voidKey ((p.visit id e).withVoid.bind id ⟨voidKey, true⟩)
  | qualified {id target : EntryId} {name? : Option String} {e : Entry} {p q : Progress}
    {key : SymbolKey} :
    Fresh source p id e → e.kind = .qualified (some target) →
    Walks source (.entry target name?) (p.visit id e) key q →
    Walks source (.entry id name?) p key q
  | qualifiedVoid {id : EntryId} {name? : Option String} {e : Entry} {p : Progress} :
    Fresh source p id e → e.kind = .qualified none →
    Walks source (.entry id name?) p voidKey (p.visit id e).withVoid
  /-- A typedef names the entry behind it, which waits for a name. -/
  | naming {id target : EntryId} {name? : Option String} {e bare : Entry} {p q : Progress}
    {key : SymbolKey} :
    Fresh source p id e → e.kind = .typedef (some target) → Strips source target (some bare) →
    unnamed p bare = true →
    Walks source (.entry bare.id (some e.shownName)) (p.visit id e) key q →
    Walks source (.entry id name?) p key (q.bind e.id ⟨key, true⟩)
  | typedef {id target : EntryId} {name? : Option String} {e : Entry} {behind : Option Entry}
    {p m q : Progress} {key type : SymbolKey} :
    Fresh source p id e → e.kind = .typedef (some target) → Strips source target behind →
    behind.filter (unnamed p) = none → key.name = e.shownName →
    sizeOf source fullRoom e.id = .ok key.byteSize →
    Walks source (.entry target none) (p.enter id e key) type m →
    Walks source (.content key behind) m key q →
    Walks source (.entry id name?) p key (q.bind e.id ⟨key, true⟩)
  | typedefVoid {id : EntryId} {name? : Option String} {e : Entry} {p : Progress}
    {key : SymbolKey} :
    Fresh source p id e → e.kind = .typedef none →
    key.name = e.shownName → sizeOf source fullRoom e.id = .ok key.byteSize →
    Walks source (.entry id name?) p key ((p.enter id e key).bind e.id ⟨key, true⟩)
  | done {owner : SymbolKey} {p : Progress} : Walks source (.members owner []) p owner p
  | member {owner type : SymbolKey} {m : Member} {place : Nat} {rest : List (Member × Nat)}
    {extents : List Nat} {pointers : Nat} {goal : EntryId} {p q r : Progress} :
    Leads source false m.type extents pointers (some goal) →
    Walks source (.entry goal none) p type q →
    Walks source (.members owner rest)
      (q.push (.field (memberStep owner m place type extents pointers))) owner r →
    Walks source (.members owner ((m, place) :: rest)) p owner r
  | memberVoid {owner : SymbolKey} {m : Member} {place : Nat} {rest : List (Member × Nat)}
    {extents : List Nat} {pointers : Nat} {p r : Progress} :
    Leads source false m.type extents pointers none →
    Walks source (.members owner rest)
      (p.withVoid.push (.field (memberStep owner m place voidKey extents pointers))) owner r →
    Walks source (.members owner ((m, place) :: rest)) p owner r
  | lentMembers {owner : SymbolKey} {b : Entry} {kind : CompoundKind} {members : List Member}
    {declaration : Bool} {p q : Progress} : b.kind = .compound kind members declaration →
    Walks source (.members owner members.zipIdx) p owner q →
    Walks source (.content owner (some b)) p owner q
  | lentConstants {owner : SymbolKey} {b : Entry} {constants : List Constant} {p : Progress} :
    b.kind = .enumeration constants →
    Walks source (.content owner (some b)) p owner (p.pushConstants owner constants)
  | nothing {owner : SymbolKey} {behind : Option Entry} {p : Progress} :
    (∀ b, behind = some b →
      ∀ kind members declaration, b.kind ≠ .compound kind members declaration) →
    (∀ b, behind = some b → ∀ constants, b.kind ≠ .enumeration constants) →
    Walks source (.content owner behind) p owner p

/-! ## Moves that go well -/

variable {source : Source}

theorem pureMove_ok {α : Type} {x : Except Failure α} {p q : Progress} {a : α}
    (h : pureMove x p = .ok a q) : x = .ok a ∧ q = p := by
  cases x with
  | ok b =>
    cases h
    exact ⟨rfl, rfl⟩
  | error e => cases h

theorem voidSymbol_eq (p : Progress) : voidSymbol p = .ok voidKey p.withVoid := by
  unfold voidSymbol Progress.withVoid
  rw [bind_of_ok (get_apply p)]
  split <;> rfl

theorem emitConstants_eq (key : SymbolKey) (constants : List Constant) (p : Progress) :
    emitConstants key constants p = .ok ⟨⟩ (p.pushConstants key constants) := by
  unfold emitConstants Progress.pushConstants
  induction constants generalizing p with
  | nil => rfl
  | cons c rest ih => exact (bind_of_ok (modify_apply _ p)).trans (ih _)

/-- The work that ran, apart from the state that it ran from. -/
theorem exists_move {α : Type} {x : Walk α} {p : Progress} {r : EStateM.Result Failure Progress α}
    (h : x p = r) : ∃ move, move = x ∧ move p = r := ⟨x, rfl, h⟩

theorem emitMembers_walks {room : Nat}
    {resolve : (left : Nat) → left ≤ room → EntryId → Walk SymbolKey}
    (hresolve : ∀ left hle id p key q, resolve left hle id p = .ok key q →
      Walks source (.entry id none) p key q)
    {owner : SymbolKey} {members : List Member} {p q : Progress}
    (h : emitMembers source room resolve owner members p = .ok ⟨⟩ q) :
    Walks source (.members owner members.zipIdx) p owner q := by
  unfold emitMembers at h
  generalize members.zipIdx = rest at h ⊢
  induction rest generalizing p with
  | nil =>
    cases h
    exact .done
  | cons first rest ih =>
    obtain ⟨m, place⟩ := first
    obtain ⟨_, n, hone, h⟩ := forM_cons_ok_iff.mp h
    dsimp only at hone
    obtain ⟨move, hmove, hone⟩ := exists_move hone
    split at hmove
    · subst hmove
      cases hone
    · rename_i shape hshape
      have hleads := leads_of_shapeOf hshape
      split at hmove
      · rename_i goal hgoal
        subst hmove
        obtain ⟨type, k, hk, hone⟩ := bind_ok_iff.mp hone
        cases hone
        rw [hgoal] at hleads
        exact .member hleads (hresolve _ _ _ _ _ _ hk) (ih h)
      · rename_i hgoal
        subst hmove
        rw [bind_of_ok (voidSymbol_eq p)] at hone
        cases hone
        rw [hgoal] at hleads
        exact .memberVoid hleads (ih h)

theorem completed_ok {id : EntryId} {key found : SymbolKey} {p q : Progress}
    (h : (do complete id key; return key : Walk SymbolKey) p = .ok found q) :
    found = key ∧ q = p.bind id ⟨key, true⟩ := by
  cases h
  exact ⟨rfl, rfl⟩

theorem symbol?_of_boundElsewhere? {p : Progress} {id : EntryId} {e : Entry} {key : SymbolKey}
    (h : boundElsewhere? p id e = some key) : p.symbol? e.id = some key := by
  unfold boundElsewhere? at h
  split at h
  · cases h
  · exact h

/-! ## Kinds of entries -/

section

variable {id : EntryId} {name? : Option String} {e : Entry} {p q : Progress} {key : SymbolKey}

/-- A walk that completes an entry goes well where the walk in front of that does. -/
theorem completed_behind {walk : Walk SymbolKey}
    (h : (do let key ← walk; complete id key; return key : Walk SymbolKey) p = .ok key q) :
    ∃ m, walk p = .ok key m ∧ q = m.bind id ⟨key, true⟩ := by
  obtain ⟨found, m, hwalk, h⟩ := bind_ok_iff.mp h
  obtain ⟨rfl, rfl⟩ := completed_ok h
  exact ⟨m, hwalk, rfl⟩

/-- The work walks the members for each owner. -/
def WalksMembers (source : Source) (members : List Member) (work : SymbolKey → Walk Unit) : Prop :=
  ∀ owner p q, work owner p = .ok ⟨⟩ q → Walks source (.members owner members.zipIdx) p owner q

namespace Fresh

theorem base (fresh : Fresh source p id e) (hkind : e.kind = .base)
    (h : (do
      let key ← intern (if e.anonymous then voidName else e.shownName) (e.byteSize.getD 0)
      complete id key
      return key : Walk SymbolKey) (p.visit id e) = .ok key q) :
    Walks source (.entry id name?) p key q := by
  cases h
  exact .base fresh hkind rfl

theorem compound {kind : CompoundKind} {members : List Member} {declaration : Bool} {room : Nat}
    {work : SymbolKey → Walk Unit} (fresh : Fresh source p id e)
    (hkind : e.kind = .compound kind members declaration) (hroom : room ≤ fullRoom)
    (hwork : WalksMembers source members work)
    (h : (do
      let byteSize ← pureMove (sizeOf source room e.id)
      let key ← intern (name?.getD e.shownName) byteSize
      reserve e.id key
      work key
      complete e.id key
      return key : Walk SymbolKey) (p.visit id e) = .ok key q) :
    Walks source (.entry id name?) p key q := by
  obtain ⟨byteSize, m, hmove, h⟩ := bind_ok_iff.mp h
  obtain ⟨hsize, rfl⟩ := pureMove_ok hmove
  obtain ⟨_, _, hintern, h⟩ := bind_ok_iff.mp h
  cases hintern
  obtain ⟨_, _, hreserve, h⟩ := bind_ok_iff.mp h
  cases hreserve
  obtain ⟨_, n, hmembers, h⟩ := bind_ok_iff.mp h
  obtain ⟨rfl, rfl⟩ := completed_ok h
  exact .compound fresh hkind rfl (sizeOf_mono hroom hsize) (hwork _ _ _ hmembers)

theorem enumeration {constants : List Constant} (fresh : Fresh source p id e)
    (hkind : e.kind = .enumeration constants)
    (h : (do
      let key ← intern (name?.getD e.shownName) (e.byteSize.getD 0)
      emitConstants key constants
      complete e.id key
      return key : Walk SymbolKey) (p.visit id e) = .ok key q) :
    Walks source (.entry id name?) p key q := by
  obtain ⟨_, _, hintern, h⟩ := bind_ok_iff.mp h
  cases hintern
  rw [bind_of_ok (emitConstants_eq _ _ _)] at h
  obtain ⟨rfl, rfl⟩ := completed_ok h
  exact .enumeration fresh hkind rfl

theorem pointerVoid (fresh : Fresh source p id e) (hkind : e.kind = .pointer none)
    (h : (do
      let key ← voidSymbol
      complete id key
      return key : Walk SymbolKey) (p.visit id e) = .ok key q) :
    Walks source (.entry id name?) p key q := by
  obtain ⟨m, hvoid, rfl⟩ := completed_behind h
  rw [voidSymbol_eq] at hvoid
  cases hvoid
  exact .pointerVoid fresh hkind

theorem qualifiedVoid (fresh : Fresh source p id e) (hkind : e.kind = .qualified none)
    (h : voidSymbol (p.visit id e) = .ok key q) : Walks source (.entry id name?) p key q := by
  rw [voidSymbol_eq] at h
  cases h
  exact .qualifiedVoid fresh hkind

end Fresh

/-- What a typedef takes over is walked in front of its completion. -/
theorem content_walks {behind : Option Entry} {found : SymbolKey}
    {work : List Member → SymbolKey → Walk Unit}
    (hwork : ∀ members, WalksMembers source members (work members))
    (h : (do
      match behind.map Entry.kind with
      | some (.compound _ members _) => work members key
      | some (.enumeration constants) => emitConstants key constants
      | _ => pure ()
      complete id key
      return key : Walk SymbolKey) p = .ok found q) :
    ∃ m, Walks source (.content key behind) p key m ∧ found = key ∧ q = m.bind id ⟨key, true⟩ := by
  cases behind with
  | none =>
    obtain ⟨rfl, rfl⟩ := completed_ok h
    exact ⟨p, .nothing nofun nofun, rfl, rfl⟩
  | some b =>
    rw [Option.map_some] at h
    cases hkind : b.kind with
    | compound kind members declaration =>
      rw [hkind] at h
      obtain ⟨_, m, hmembers, h⟩ := bind_ok_iff.mp h
      obtain ⟨rfl, rfl⟩ := completed_ok h
      exact ⟨m, .lentMembers hkind (hwork _ _ _ _ hmembers), rfl, rfl⟩
    | enumeration constants =>
      rw [hkind] at h
      dsimp only at h
      rw [bind_of_ok (emitConstants_eq _ _ _)] at h
      obtain ⟨rfl, rfl⟩ := completed_ok h
      exact ⟨_, .lentConstants hkind, rfl, rfl⟩
    | base | array _ _ | pointer _ | qualified _ | typedef _ =>
      rw [hkind] at h
      obtain ⟨rfl, rfl⟩ := completed_ok h
      refine ⟨p, .nothing ?_ ?_, rfl, rfl⟩
      · rintro _ ⟨⟩ kind members declaration hb
        cases hkind.symm.trans hb
      · rintro _ ⟨⟩ constants hb
        cases hkind.symm.trans hb

namespace Fresh

/-- A typedef names what waits for a name behind it, or it has a symbol of its own and takes over
what is behind it. -/
theorem typedef {target : Option EntryId} {room : Nat} {named : EntryId → Walk SymbolKey}
    {walk : EntryId → Walk SymbolKey} {work : List Member → SymbolKey → Walk Unit}
    (fresh : Fresh source p id e) (hkind : e.kind = .typedef target) (hroom : room + 1 ≤ fullRoom)
    (hnamed : ∀ id p key q, named id p = .ok key q →
      Walks source (.entry id (some e.shownName)) p key q)
    (hwalk : ∀ id p key q, walk id p = .ok key q → Walks source (.entry id none) p key q)
    (hwork : ∀ members, WalksMembers source members (work members))
    (h : (do
      let behind ← pureMove (aliased source room target)
      match behind.filter (unnamed p) with
      | some bare =>
        let key ← named bare.id
        complete e.id key
        return key
      | none =>
        let byteSize ← pureMove (sizeOf source (room + 1) e.id)
        let key ← intern e.shownName byteSize
        reserve e.id key
        match target with
        | some target => do
          let _ ← walk target
        | none => pure ()
        match behind.map Entry.kind with
        | some (.compound _ members _) => work members key
        | some (.enumeration constants) => emitConstants key constants
        | _ => pure ()
        complete e.id key
        return key : Walk SymbolKey) (p.visit id e) = .ok key q) :
    Walks source (.entry id name?) p key q := by
  obtain ⟨behind, m, hmove, h⟩ := bind_ok_iff.mp h
  obtain ⟨hbehind, rfl⟩ := pureMove_ok hmove
  cases hnaming : behind.filter (unnamed p) with
  | some bare =>
    rw [hnaming] at h
    obtain ⟨rfl, hunnamed⟩ := Option.filter_eq_some_iff.mp hnaming
    obtain ⟨m, hbare, rfl⟩ := completed_behind h
    cases target with
    | none => cases hbehind
    | some target =>
      exact .naming fresh hkind (strips_of_unqualified hbehind) hunnamed (hnamed _ _ _ _ hbare)
  | none =>
    rw [hnaming] at h
    obtain ⟨byteSize, m, hmove, h⟩ := bind_ok_iff.mp h
    obtain ⟨hsize, rfl⟩ := pureMove_ok hmove
    have exact := sizeOf_mono hroom hsize
    obtain ⟨_, _, hintern, h⟩ := bind_ok_iff.mp h
    cases hintern
    obtain ⟨_, _, hreserve, h⟩ := bind_ok_iff.mp h
    cases hreserve
    cases target with
    | none =>
      cases hbehind
      obtain ⟨rfl, rfl⟩ := completed_ok h
      exact .typedefVoid fresh hkind rfl exact
    | some target =>
      obtain ⟨type, m, htarget, h⟩ := bind_ok_iff.mp h
      obtain ⟨n, hcontent, rfl, rfl⟩ := content_walks hwork h
      exact .typedef fresh hkind (strips_of_unqualified hbehind) hnaming rfl exact
        (hwalk _ _ _ _ htarget) hcontent

end Fresh

end

/-- Every walk that goes well has a derivation. -/
theorem resolve_walks {room : Nat} (hroom : room ≤ fullRoom) {id : EntryId} {name? : Option String}
    {p q : Progress} {key : SymbolKey} (h : resolve source room id name? p = .ok key q) :
    Walks source (.entry id name?) p key q := by
  -- The run is taken apart at each bind and each match, in the order in which it was written.
  induction room using Nat.strongRecOn generalizing id name? p q key with
  | ind room ih =>
    unfold resolve at h
    cases room with
    | zero => cases h
    | succ room =>
      have walks (name? : Option String) (id : EntryId) (p : Progress) (key : SymbolKey)
          (q : Progress) (h : resolve source room id name? p = .ok key q) :
          Walks source (.entry id name?) p key q :=
        ih room (Nat.lt_succ_self room) (by omega) h
      have members (left : Nat) (hleft : left ≤ room) (members : List Member) :
          WalksMembers source members fun owner =>
            emitMembers source left (fun less _ target => resolve source less target none) owner
              members :=
        fun _ _ _ => emitMembers_walks fun less hless _ _ _ _ => ih less (by omega) (by omega)
      dsimp only at h
      rw [bind_of_ok (get_apply p)] at h
      cases hbound : p.symbol? id with
      | some found =>
        rw [hbound] at h
        cases h
        exact .bound hbound
      | none =>
        rw [hbound] at h
        obtain ⟨entry, m, hentry, h⟩ := bind_ok_iff.mp h
        obtain ⟨hok, rfl⟩ := pureMove_ok hentry
        have hfind := entry_eq_ok.mp hok
        cases helsewhere : boundElsewhere? m id entry with
        | some found =>
          rw [helsewhere] at h
          cases h
          exact .elsewhere hfind (symbol?_of_boundElsewhere? helsewhere)
        | none =>
          rw [helsewhere] at h
          have fresh : Fresh source m id entry := ⟨hbound, hfind, helsewhere⟩
          obtain ⟨_, n, hvisit, h⟩ := bind_ok_iff.mp h
          cases hvisit
          cases hkind : entry.kind with
          | base =>
            rw [hkind] at h
            exact fresh.base hkind h
          | compound kind ms declaration =>
            rw [hkind] at h
            exact fresh.compound hkind hroom (members room (Nat.le_refl _) ms) h
          | enumeration constants =>
            rw [hkind] at h
            exact fresh.enumeration hkind h
          | array element extents =>
            rw [hkind] at h
            obtain ⟨n, helement, rfl⟩ := completed_behind h
            exact .array fresh hkind (walks none _ _ _ _ helement)
          | pointer target =>
            rw [hkind] at h
            cases target with
            | some target =>
              obtain ⟨n, htarget, rfl⟩ := completed_behind h
              exact .pointer fresh hkind (walks none _ _ _ _ htarget)
            | none => exact fresh.pointerVoid hkind h
          | qualified target =>
            rw [hkind] at h
            cases target with
            | some target => exact .qualified fresh hkind (walks name? _ _ _ _ h)
            | none => exact fresh.qualifiedVoid hkind h
          | typedef target =>
            rw [hkind] at h
            exact fresh.typedef hkind hroom (walks (some entry.shownName)) (walks none)
              (members (room - 1) (Nat.sub_le _ _)) h

/-! ## What a walk leaves alone -/

theorem Walks.extends {task : Task} {p q : Progress} {key : SymbolKey}
    (h : Walks source task p key q) : Extends p q := by
  induction h with
  | bound => exact .refl _
  | elsewhere => exact .refl _
  | base => exact ((Extends.push _ _).trans (.push _ _)).trans (.bind _ _ _)
  | compound _ _ _ _ _ ih => exact ((Extends.enter _ _ _ _).trans ih).trans (.bind _ _ _)
  | enumeration =>
    exact (((Extends.push _ _).trans (.push _ _)).trans (.pushConstants _ _ _)).trans (.bind _ _ _)
  | array _ _ _ ih => exact ((Extends.push _ _).trans ih).trans (.bind _ _ _)
  | pointer _ _ _ ih => exact ((Extends.push _ _).trans ih).trans (.bind _ _ _)
  | pointerVoid => exact ((Extends.push _ _).trans (.withVoid _)).trans (.bind _ _ _)
  | qualified _ _ _ ih => exact (Extends.push _ _).trans ih
  | qualifiedVoid => exact (Extends.push _ _).trans (.withVoid _)
  | naming _ _ _ _ _ ih => exact ((Extends.push _ _).trans ih).trans (.bind _ _ _)
  | typedef _ _ _ _ _ _ _ _ ihtarget ih =>
    exact (((Extends.enter _ _ _ _).trans ihtarget).trans ih).trans (.bind _ _ _)
  | typedefVoid => exact (Extends.enter _ _ _ _).trans (.bind _ _ _)
  | done => exact .refl _
  | member _ _ _ ihgoal ih => exact (ihgoal.trans (.push _ _)).trans ih
  | memberVoid _ _ ih => exact ((Extends.withVoid _).trans (.push _ _)).trans ih
  | lentMembers _ _ ih => exact ih
  | lentConstants => exact .pushConstants _ _ _
  | nothing => exact .refl _

/-- A walk that goes well leaves no entry pending that was not so before. -/
theorem Walks.pending {task : Task} {p q : Progress} {key : SymbolKey}
    (h : Walks source task p key q) : q.pending ⊆ p.pending := by
  have completes {p q : Progress} {id : EntryId} {key : SymbolKey} (h : q.pending ⊆ p.pending) :
      (q.bind id ⟨key, true⟩).pending ⊆ p.pending := by
    intro other hother
    rcases Progress.mem_pending_bind.mp hother with ⟨-, hfalse⟩ | ⟨-, hq⟩
    · cases hfalse
    · exact h hq
  have leaves {p q : Progress} {id : EntryId} {e : Entry} {key : SymbolKey}
      (h : q.pending ⊆ (p.enter id e key).pending) :
      (q.bind e.id ⟨key, true⟩).pending ⊆ p.pending := by
    intro other hother
    rcases Progress.mem_pending_bind.mp hother with ⟨-, hfalse⟩ | ⟨hne, hq⟩
    · cases hfalse
    · rcases Progress.mem_pending_bind.mp (h hq) with ⟨heq, -⟩ | ⟨-, hp⟩
      · exact absurd heq hne
      · exact hp
  induction h with
  | bound => exact List.Subset.refl _
  | elsewhere => exact List.Subset.refl _
  | base => exact completes (List.Subset.refl _)
  | compound _ _ _ _ _ ih => exact leaves ih
  | enumeration => exact completes (by simp [Progress.visit])
  | array _ _ _ ih => exact completes ih
  | pointer _ _ _ ih => exact completes ih
  | pointerVoid => exact completes (by simp [Progress.visit])
  | qualified _ _ _ ih => exact ih
  | qualifiedVoid => simp [Progress.visit]
  | naming _ _ _ _ _ ih => exact completes ih
  | typedef _ _ _ _ _ _ _ _ ihtarget ih => exact leaves (List.Subset.trans ih ihtarget)
  | typedefVoid => exact leaves (List.Subset.refl _)
  | done => exact List.Subset.refl _
  | member _ _ _ ihgoal ih => exact List.Subset.trans ih ihgoal
  | memberVoid _ _ ih => simpa using ih
  | lentMembers _ _ ih => exact ih
  | lentConstants => simp
  | nothing => exact List.Subset.refl _

end LayoutGraph.Survey
