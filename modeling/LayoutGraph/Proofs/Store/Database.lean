-- The store in a database has no faults: its tables only ever gain rows
-- whose keys they did not have, and a change of types moves no key.
import LayoutGraph.Proofs.Store.Faultless
import LayoutGraph.Store.Database

namespace LayoutGraph.Database

open Chain

/-- The tables name the row of the holding, and the numbers of its key fit their columns. -/
def Names (db : Database) : Holding → Prop
  | .origin name id => (db.graph.origins.find? fun o => o.name = name).map Origin.id = some id
  | .symbol key id =>
    key.byteSize < columnEnd ∧ (db.graph.symbols.find? fun s => s.key = key).map Symbol.id = some id
  | .field key id => (db.graph.fields.find? fun f => f.key = key).map Field.id = some id
  | .enumerator key id =>
    db.mayWrite = true ∧
      (db.graph.enumerators.find? fun e => e.key = key).map Enumerator.id = some id

theorem bind_eq_ok {α β : Type} {x : Except Failure α} {f : α → Except Failure β} {b : β} :
    (x >>= f) = .ok b ↔ ∃ a, x = .ok a ∧ f a = .ok b := by
  cases x <;> simp [bind, Except.bind]

theorem checkFits_eq_ok {column : String} {value : Nat} {u : Unit} :
    checkFits column value = .ok u ↔ value < columnEnd := by
  unfold checkFits
  split <;> simp_all

theorem checkMayWrite_eq_ok {db : Database} {u : Unit} :
    db.checkMayWrite = .ok u ↔ db.mayWrite = true := by
  unfold checkMayWrite
  split <;> simp_all

/-! ## What the inserts do when they go well -/

theorem insertOrigin_ok {db next : Database} {name : String} {littleEndian : Bool}
    {reply : Inserted OriginId} (h : db.insertOrigin name littleEndian = .ok (reply, next)) :
    (∃ row, (db.graph.origins.find? fun o => o.name = name) = some row ∧
        reply = .existing row.id ∧ next = db) ∨
      ((db.graph.origins.find? fun o => o.name = name) = none ∧ ∃ id, reply = .created id ∧
        next = { db with graph.origins := db.graph.origins ++ [⟨id, name, littleEndian⟩] }) := by
  unfold insertOrigin at h
  obtain ⟨-, -, h⟩ := bind_eq_ok.mp h
  split at h <;> rename_i heq <;> cases h
  · exact .inl ⟨_, heq, rfl, rfl⟩
  · exact .inr ⟨heq, _, rfl, rfl⟩

theorem insertSymbol_ok {db next : Database} {row : NewSymbol} {reply : Inserted SymbolId}
    (h : db.insertSymbol row = .ok (reply, next)) :
    row.byteSize < columnEnd ∧
      ((∃ taken, (db.graph.symbols.find? fun s => s.key = row.key) = some taken ∧
          reply = .existing taken.id ∧ next = db) ∨
        ((db.graph.symbols.find? fun s => s.key = row.key) = none ∧ ∃ id, reply = .created id ∧
          next = { db with graph.symbols := db.graph.symbols ++ [row.withId id] })) := by
  unfold insertSymbol at h
  obtain ⟨u, hfits, h⟩ := bind_eq_ok.mp h
  obtain ⟨-, -, h⟩ := bind_eq_ok.mp h
  refine ⟨checkFits_eq_ok.mp hfits, ?_⟩
  split at h
  · rename_i heq
    cases h
    exact .inl ⟨_, heq, rfl, rfl⟩
  · rename_i heq
    obtain ⟨-, -, h⟩ := bind_eq_ok.mp h
    cases h
    exact .inr ⟨heq, _, rfl, rfl⟩

theorem insertField_ok {db next : Database} {row : NewField} {reply : Inserted FieldId}
    (h : db.insertField row = .ok (reply, next)) :
    (∃ taken, (db.graph.fields.find? fun f => f.key = row.key) = some taken ∧
        reply = .existing taken.id ∧ next = db) ∨
      ((db.graph.fields.find? fun f => f.key = row.key) = none ∧ ∃ id, reply = .created id ∧
        next = { db with graph.fields := db.graph.fields ++ [row.withId id] }) := by
  unfold insertField at h
  obtain ⟨-, -, h⟩ := bind_eq_ok.mp h
  obtain ⟨-, -, h⟩ := bind_eq_ok.mp h
  obtain ⟨-, -, h⟩ := bind_eq_ok.mp h
  obtain ⟨-, -, h⟩ := bind_eq_ok.mp h
  split at h
  · rename_i heq
    cases h
    exact .inl ⟨_, heq, rfl, rfl⟩
  · rename_i heq
    obtain ⟨-, -, h⟩ := bind_eq_ok.mp h
    obtain ⟨-, -, h⟩ := bind_eq_ok.mp h
    cases h
    exact .inr ⟨heq, _, rfl, rfl⟩

theorem insertEnumerator_ok {db next : Database} {symbol : SymbolId} {name : String} {value : Int}
    {reply : Inserted EnumeratorId} (h : db.insertEnumerator symbol name value = .ok (reply, next)) :
    db.mayWrite = true ∧
      ((∃ taken, (db.graph.enumerators.find? fun e => e.key = ⟨symbol, name⟩) = some taken ∧
          reply = .existing taken.id ∧ next = db) ∨
        ((db.graph.enumerators.find? fun e => e.key = ⟨symbol, name⟩) = none ∧
          ∃ id, reply = .created id ∧
            next = { db with
              graph.enumerators := db.graph.enumerators ++ [⟨id, symbol, name, value⟩] })) := by
  unfold insertEnumerator at h
  obtain ⟨u, hmay, h⟩ := bind_eq_ok.mp h
  refine ⟨checkMayWrite_eq_ok.mp hmay, ?_⟩
  split at h
  · rename_i heq
    cases h
    exact .inl ⟨_, heq, rfl, rfl⟩
  · rename_i heq
    obtain ⟨-, -, h⟩ := bind_eq_ok.mp h
    cases h
    exact .inr ⟨heq, _, rfl, rfl⟩

theorem insertDimension_ok {db next : Database} {list : ListId} {order extent : Nat}
    {reply : DimensionId} (h : db.insertDimension list order extent = .ok (reply, next)) :
    ∃ rows lists, next = { db with graph.dimensions := rows, lists := lists } := by
  unfold insertDimension at h
  obtain ⟨-, -, h⟩ := bind_eq_ok.mp h
  obtain ⟨-, -, h⟩ := bind_eq_ok.mp h
  split at h <;> cases h
  · exact ⟨db.graph.dimensions, _, rfl⟩
  · exact ⟨_, _, rfl⟩

theorem allocateList_ok {db next : Database} {list : ListId}
    (h : db.allocateList = .ok (list, next)) : ∃ lists, next = { db with lists := lists } := by
  unfold allocateList ListCounter.next at h
  split at h <;> cases h
  exact ⟨_, rfl⟩

theorem retargetFields_ok {db next : Database} {old new : SymbolId} {n : Nat}
    (h : db.retargetFields old new = .ok (n, next)) :
    next = { db with graph.fields := db.graph.fields.map fun f =>
      if f.type = old then { f with type := new } else f } := by
  unfold retargetFields at h
  obtain ⟨-, -, h⟩ := bind_eq_ok.mp h
  dsimp only at h
  split at h
  · obtain ⟨-, -, h⟩ := bind_eq_ok.mp h
    cases h
    rfl
  · cases h
    rfl

theorem setFieldType_ok {db next : Database} {field : FieldId} {type : SymbolId} {b : Bool}
    (h : db.setFieldType field type = .ok (b, next)) :
    next = { db with graph.fields := db.graph.fields.map fun f =>
      if f.id = field then { f with type } else f } := by
  unfold setFieldType at h
  obtain ⟨-, -, h⟩ := bind_eq_ok.mp h
  dsimp only at h
  split at h
  · obtain ⟨-, -, h⟩ := bind_eq_ok.mp h
    cases h
    rfl
  · cases h
    rfl

/-! ## Look-ups in a table that changed -/

theorem find?_append_of_some {α ι : Type} {rows : List α} {p : α → Bool} {id : α → ι} {i : ι}
    (h : (rows.find? p).map id = some i) (more : List α) :
    ((rows ++ more).find? p).map id = some i := by
  rw [List.find?_append]
  cases hfind : rows.find? p with
  | none => simp [hfind] at h
  | some row => simpa [hfind] using h

/-- A change of types touches neither the key nor the id of a field. -/
theorem find?_map_type (fields : List Field) (key : FieldKey) (change : Field → Field)
    (hkey : ∀ f, (change f).key = f.key) (hid : ∀ f, (change f).id = f.id) :
    ((fields.map change).find? fun f => f.key = key).map Field.id =
      (fields.find? fun f => f.key = key).map Field.id := by
  rw [List.find?_map, Option.map_map]
  have hsame : ((fun f : Field => decide (f.key = key)) ∘ change) = fun f => decide (f.key = key) := by
    funext f
    simp [hkey]
  rw [hsame]
  congr 1
  funext f
  exact hid f

/-! ## What is held -/

theorem findSymbol_eq_ok {db : Database} {key : SymbolKey} {found : Option SymbolId} :
    db.findSymbol key = .ok found ↔ key.byteSize < columnEnd ∧
      (db.graph.symbols.find? fun s => s.key = key).map Symbol.id = found := by
  unfold findSymbol
  rw [bind_eq_ok]
  simp only [checkFits_eq_ok, pure, Except.pure, Except.ok.injEq, exists_and_left, exists_const]

theorem insertEnumerator_existing {db : Database} {key : EnumeratorKey} {id : EnumeratorId}
    (h : db.Names (.enumerator key id)) (value : Int) :
    db.insertEnumerator key.symbol key.name value = .ok (.existing id, db) := by
  obtain ⟨hmay, hfind⟩ := h
  obtain ⟨row, hrow, rfl⟩ := Option.map_eq_some_iff.mp hfind
  unfold insertEnumerator
  rw [bind_eq_ok]
  refine ⟨(), checkMayWrite_eq_ok.mpr hmay, ?_⟩
  split
  · rename_i heq
    cases hrow.symm.trans heq
    rfl
  · rename_i heq
    cases hrow.symm.trans heq

theorem holds_iff (db : Database) (held : Holding) : Holds db held ↔ db.Names held := by
  cases held with
  | origin name id =>
    simp only [Holds, Names, Store.serve, ofStep_ok_iff, answer, findOrigin, Except.ok.injEq,
      Prod.mk.injEq, and_true]
  | symbol key id =>
    simp only [Holds, Names, Store.serve, ofStep_ok_iff, answer]
    rw [← findSymbol_eq_ok]
    cases db.findSymbol key <;> simp [Except.map]
  | field key id =>
    simp only [Holds, Names, Store.serve, ofStep_ok_iff, answer, findField, Except.ok.injEq,
      Prod.mk.injEq, and_true]
  | enumerator key id =>
    simp only [Holds, Store.serve, ofStep_ok_iff, answer]
    refine ⟨fun h => ?_, insertEnumerator_existing⟩
    obtain ⟨hmay, ⟨row, hrow, hid, -⟩ | ⟨-, _, hid, -⟩⟩ := insertEnumerator_ok (h 0)
    · cases hid
      exact ⟨hmay, Option.map_eq_some_iff.mpr ⟨row, hrow, rfl⟩⟩
    · cases hid

theorem names_lasts {α : Type} {request : Request α} {db next : Database} {reply : α}
    {held : Holding} (h : db.answer request = .ok (reply, next)) (hdb : db.Names held) :
    next.Names held := by
  cases request with
  | insertOrigin name littleEndian =>
    obtain ⟨_, -, -, rfl⟩ | ⟨-, _, -, rfl⟩ := insertOrigin_ok h
    · exact hdb
    · cases held <;> first | exact hdb | exact find?_append_of_some hdb _
  | insertSymbol row =>
    obtain ⟨-, ⟨_, -, -, rfl⟩ | ⟨-, _, -, rfl⟩⟩ := insertSymbol_ok h
    · exact hdb
    · cases held <;> first | exact hdb | exact ⟨hdb.1, find?_append_of_some hdb.2 _⟩
  | insertField row =>
    obtain ⟨_, -, -, rfl⟩ | ⟨-, _, -, rfl⟩ := insertField_ok h
    · exact hdb
    · cases held <;> first | exact hdb | exact find?_append_of_some hdb _
  | insertEnumerator symbol name value =>
    obtain ⟨-, ⟨_, -, -, rfl⟩ | ⟨-, _, -, rfl⟩⟩ := insertEnumerator_ok h
    · exact hdb
    · cases held <;> first | exact hdb | exact ⟨hdb.1, find?_append_of_some hdb.2 _⟩
  | insertDimension list order extent =>
    obtain ⟨rows, lists, rfl⟩ := insertDimension_ok h
    cases held <;> exact hdb
  | allocateList =>
    obtain ⟨lists, rfl⟩ := allocateList_ok h
    cases held <;> exact hdb
  | retargetFields old new =>
    rw [retargetFields_ok h]
    have hchange := fun key => find?_map_type db.graph.fields key
      (fun f => if f.type = old then { f with type := new } else f)
      (fun f => by split <;> rfl) (fun f => by split <;> rfl)
    cases held <;> first | exact hdb | exact (hchange _).trans hdb
  | setFieldType field type =>
    rw [setFieldType_ok h]
    have hchange := fun key => find?_map_type db.graph.fields key
      (fun f => if f.id = field then { f with type } else f)
      (fun f => by split <;> rfl) (fun f => by split <;> rfl)
    cases held <;> first | exact hdb | exact (hchange _).trans hdb
  | findSymbol key =>
    simp only [answer] at h
    cases hfind : db.findSymbol key <;> rw [hfind] at h <;> cases h
    exact hdb
  | findOrigin _ | findField _ | symbolById _ | fieldById _ | symbolsNamed _ | snapshot
  | commit =>
    cases h
    exact hdb

/-- The first row with a key that no row before it has. -/
theorem find?_append_new {α : Type} {rows : List α} {p : α → Bool} {row : α}
    (h : rows.find? p = none) (hrow : p row = true) : (rows ++ [row]).find? p = some row := by
  rw [List.find?_append, h]
  simp [hrow]

theorem names_of_insert {α : Type} {request : Request α} {db next : Database} {reply : α}
    {held : Holding} (h : db.answer request = .ok (reply, next))
    (hheld : Holding.ofInsert request reply = some held) : next.Names held := by
  cases request <;> simp only [Holding.ofInsert, reduceCtorEq, Option.some.injEq] at hheld
  case insertOrigin name littleEndian =>
    subst hheld
    obtain ⟨row, hrow, rfl, rfl⟩ | ⟨hnone, id, rfl, rfl⟩ := insertOrigin_ok h
    · exact Option.map_eq_some_iff.mpr ⟨row, hrow, rfl⟩
    · exact Option.map_eq_some_iff.mpr ⟨_, find?_append_new hnone (by simp), rfl⟩
  case insertSymbol row =>
    subst hheld
    obtain ⟨hfits, ⟨taken, htaken, rfl, rfl⟩ | ⟨hnone, id, rfl, rfl⟩⟩ := insertSymbol_ok h
    · exact ⟨hfits, Option.map_eq_some_iff.mpr ⟨taken, htaken, rfl⟩⟩
    · have hkey : (row.withId id).key = row.key := rfl
      exact ⟨hfits, Option.map_eq_some_iff.mpr
        ⟨_, find?_append_new hnone (by simp [hkey]), rfl⟩⟩
  case insertField row =>
    subst hheld
    obtain ⟨taken, htaken, rfl, rfl⟩ | ⟨hnone, id, rfl, rfl⟩ := insertField_ok h
    · exact Option.map_eq_some_iff.mpr ⟨taken, htaken, rfl⟩
    · have hkey : (row.withId id).key = row.key := rfl
      exact Option.map_eq_some_iff.mpr ⟨_, find?_append_new hnone (by simp [hkey]), rfl⟩
  case insertEnumerator symbol name value =>
    subst hheld
    obtain ⟨hmay, ⟨taken, htaken, rfl, rfl⟩ | ⟨hnone, id, rfl, rfl⟩⟩ := insertEnumerator_ok h
    · exact ⟨hmay, Option.map_eq_some_iff.mpr ⟨taken, htaken, rfl⟩⟩
    · exact ⟨hmay, Option.map_eq_some_iff.mpr
        ⟨_, find?_append_new hnone (by simp [Enumerator.key]), rfl⟩⟩

/-- A failure that is no taken key. -/
def Refusal (e : Failure) : Prop := ∀ entity key, e ≠ .conflict entity key

/-- Whatever fails in `x` is no taken key. -/
def OnlyRefuses {α : Type} (x : Except Failure α) : Prop := ∀ e, x = .error e → Refusal e

theorem onlyRefuses_ok {α : Type} (a : α) : OnlyRefuses (.ok a) := fun _ h => by cases h

theorem onlyRefuses_bind {α β : Type} {x : Except Failure α} {f : α → Except Failure β}
    (hx : OnlyRefuses x) (hf : ∀ a, OnlyRefuses (f a)) : OnlyRefuses (x >>= f) := by
  cases x with
  | ok a => exact hf a
  | error e =>
    intro e' h
    have h : (Except.error e : Except Failure β) = .error e' := h
    cases h
    exact hx e rfl

theorem onlyRefuses_map {α β : Type} {x : Except Failure α} (f : α → β) (hx : OnlyRefuses x) :
    OnlyRefuses (x.map f) := by
  cases x with
  | ok a => exact onlyRefuses_ok _
  | error e => exact fun e' h => by cases h; exact hx e rfl

theorem onlyRefuses_store {α : Type} (fault : StoreFault) :
    OnlyRefuses (.error (.store fault) : Except Failure α) :=
  fun e h entity key hconflict => by cases h; cases hconflict

theorem onlyRefuses_checkFits (column : String) (value : Nat) :
    OnlyRefuses (checkFits column value) := by
  unfold checkFits
  split
  · exact onlyRefuses_ok _
  · exact onlyRefuses_store _

theorem onlyRefuses_checkFits? (column : String) (value : Option Nat) :
    OnlyRefuses (checkFits? column value) := by
  cases value with
  | none => exact onlyRefuses_ok _
  | some value => exact onlyRefuses_checkFits column value

theorem onlyRefuses_checkMayWrite (db : Database) : OnlyRefuses db.checkMayWrite := by
  unfold checkMayWrite
  split
  · exact onlyRefuses_ok _
  · exact onlyRefuses_store _

theorem onlyRefuses_checkNames {α : Type} (row : Option α) : OnlyRefuses (checkNames row) := by
  unfold checkNames
  split
  · exact onlyRefuses_ok _
  · exact onlyRefuses_store _

theorem onlyRefuses_answer {α : Type} (db : Database) (request : Request α) :
    OnlyRefuses (db.answer request) := by
  have mayWrite := onlyRefuses_checkMayWrite db
  cases request with
  | insertOrigin name littleEndian =>
    refine onlyRefuses_bind mayWrite fun _ => ?_
    split <;> exact onlyRefuses_ok _
  | insertSymbol row =>
    refine onlyRefuses_bind (onlyRefuses_checkFits _ _) fun _ => onlyRefuses_bind mayWrite fun _ => ?_
    split
    · exact onlyRefuses_ok _
    · exact onlyRefuses_bind (onlyRefuses_checkNames _) fun _ => onlyRefuses_ok _
  | insertField row =>
    refine onlyRefuses_bind (onlyRefuses_checkFits _ _) fun _ => ?_
    refine onlyRefuses_bind (onlyRefuses_checkFits? _ _) fun _ => ?_
    refine onlyRefuses_bind (onlyRefuses_checkFits? _ _) fun _ => onlyRefuses_bind mayWrite fun _ => ?_
    split
    · exact onlyRefuses_ok _
    · exact onlyRefuses_bind (onlyRefuses_checkNames _) fun _ =>
        onlyRefuses_bind (onlyRefuses_checkNames _) fun _ => onlyRefuses_ok _
  | insertDimension list order extent =>
    refine onlyRefuses_bind (onlyRefuses_checkFits _ _) fun _ => onlyRefuses_bind mayWrite fun _ => ?_
    split <;> exact onlyRefuses_ok _
  | insertEnumerator symbol name value =>
    refine onlyRefuses_bind mayWrite fun _ => ?_
    split
    · exact onlyRefuses_ok _
    · exact onlyRefuses_bind (onlyRefuses_checkNames _) fun _ => onlyRefuses_ok _
  | allocateList =>
    refine onlyRefuses_map _ fun e h entity key hconflict => ?_
    unfold ListCounter.next at h
    split at h <;> cases h
    cases hconflict
  | findSymbol key =>
    exact onlyRefuses_map _ (onlyRefuses_bind (onlyRefuses_checkFits _ _) fun _ => onlyRefuses_ok _)
  | retargetFields old new =>
    refine onlyRefuses_bind mayWrite fun _ => ?_
    dsimp only
    split
    · exact onlyRefuses_bind (onlyRefuses_checkNames _) fun _ => onlyRefuses_ok _
    · exact onlyRefuses_ok _
  | setFieldType field type =>
    refine onlyRefuses_bind mayWrite fun _ => ?_
    dsimp only
    split
    · exact onlyRefuses_bind (onlyRefuses_checkNames _) fun _ => onlyRefuses_ok _
    · exact onlyRefuses_ok _
  | findOrigin _ | findField _ | symbolById _ | fieldById _ | symbolsNamed _ | snapshot
  | commit => exact onlyRefuses_ok _

theorem allocateList_of_lt {db : Database} (h : db.lists.last < ListCounter.greatest) :
    db.allocateList = .ok (⟨db.lists.last + 1⟩, { db with lists := ⟨db.lists.last + 1⟩ }) := by
  unfold allocateList ListCounter.next
  rw [if_neg (by omega)]
  rfl

instance : Faultless Database where
  graph := Database.graph
  lists := Database.lists
  commit _ := rfl
  findOrigin h := by
    have h := ofStep_ok_iff.mp h
    simp only [answer, Except.ok.injEq, Prod.mk.injEq] at h
    exact h.2.symm
  findSymbol {s t key id} h := by
    have h := ofStep_ok_iff.mp h
    simp only [answer] at h
    cases hfind : s.findSymbol key <;> rw [hfind] at h <;> cases h
    rfl
  findField h := by
    have h := ofStep_ok_iff.mp h
    simp only [answer, Except.ok.injEq, Prod.mk.injEq] at h
    exact h.2.symm
  insert h hheld := (holds_iff _ _).mpr (names_of_insert (ofStep_ok_iff.mp h) hheld)
  lasts request db held h := by
    rw [holds_iff] at h ⊢
    exact left_ofStep (P := fun next : Database => next.Names held) h
      fun _ _ heq => names_lasts heq h
  noConflict h := onlyRefuses_answer _ _ _ (ofStep_error_iff.mp h).1 _ _ rfl
  allocate db h := ⟨_, _, ofStep_ok_iff.mpr (allocateList_of_lt h), rfl, rfl⟩

/-- A database that is opened again holds what it held: its tables are the same. -/
theorem holds_reopen {db : Database} {held : Holding} (h : Holds db held) :
    Holds db.reopen held := by
  rw [holds_iff] at h ⊢
  cases held <;> exact h

end LayoutGraph.Database
