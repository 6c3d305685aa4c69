-- The store in memory and the store in a database side by side. While the
-- numbers of a request fit the columns and the rows that it refers to are
-- there, both give one reply and go on with the same rows. A number that fits
-- no column is refused by the database.
import Mathlib.Data.List.Induction
import LayoutGraph.Proofs.Store.Choice
import LayoutGraph.Proofs.Store.Sound

namespace LayoutGraph

open Database (columnEnd)

/-! ## Requests -/

namespace Request

variable {α : Type}

/-- The numbers of a request fit the columns of a database. -/
def Fits : Request α → Prop
  | .insertSymbol row => row.byteSize < columnEnd
  | .insertField row => row.byteOffset < columnEnd ∧ (∀ n ∈ row.bitSize, n < columnEnd) ∧
      ∀ n ∈ row.bitOffset, n < columnEnd
  | .insertDimension _ _ extent => extent < columnEnd
  | .findSymbol key => key.byteSize < columnEnd
  | _ => True

/-- The rows that a request wants to refer to are rows of the graph. -/
def NamesRows (g : Graph) : Request α → Prop
  | .insertSymbol row => ∃ o ∈ g.origins, o.id = row.origin
  | .insertField row => (∃ s ∈ g.symbols, s.id = row.owner) ∧ ∃ s ∈ g.symbols, s.id = row.type
  | .insertEnumerator symbol _ _ => ∃ s ∈ g.symbols, s.id = symbol
  | .retargetFields _ new => ∃ s ∈ g.symbols, s.id = new
  | .setFieldType _ type => ∃ s ∈ g.symbols, s.id = type
  | _ => True

end Request

/-! ## Look-ups in both -/

theorem Numbered.greatest {ρ : Type} {raw : ρ → Int} {rows : List ρ} (h : Numbered raw rows) :
    (rows.map raw).foldl max 0 = rows.length := by
  induction rows using List.reverseRecOn with
  | nil => rfl
  | append_singleton rows row ih =>
    have hbefore : Numbered raw rows := fun i r hr => h i r (by
      rw [List.getElem?_append_left (List.getElem?_eq_some_iff.mp hr).1]
      exact hr)
    have hlast : raw row = rows.length + 1 := h rows.length row (by simp)
    rw [List.map_append, List.foldl_append, ih hbefore, List.length_append]
    show max (rows.length : Int) (raw row) = _
    rw [hlast, Int.max_eq_right (Int.le_add_one (Int.le_refl _))]
    rfl

/-- Where ids are places, the id behind the greatest is the next place. -/
theorem Numbered.nextId {ρ : Type} {raw : ρ → Int} {rows : List ρ} (h : Numbered raw rows) :
    Database.nextId (rows.map raw) = Memory.nextId rows := by
  unfold Database.nextId Memory.nextId
  rw [h.greatest]

/-- The index finds what a scan of the table finds. -/
theorem Indexed.find?_eq {κ ι ρ : Type} [DecidableEq κ] [DecidableEq ι] {index : Index κ ι}
    {rows : List ρ} {key : ρ → κ} {id : ρ → ι} {raw : ι → Int}
    (h : Indexed index rows key id raw) (k : κ) :
    index.find? k = (rows.find? fun r => key r = k).map id := by
  cases hscan : rows.find? fun r => key r = k with
  | some r =>
    have hkey : key r = k := by simpa using List.find?_some hscan
    rw [← hkey, h.listed r (List.mem_of_find?_eq_some hscan), Option.map_some]
  | none =>
    by_contra hfind
    obtain ⟨i, hi⟩ := Option.ne_none_iff_exists'.mp hfind
    obtain ⟨r, hr, hkey, -⟩ := h.mem_of_found hi
    have hno := List.find?_eq_none.mp hscan r hr
    simp [hkey] at hno

namespace Database

variable {db : Database}

theorem checkMayWrite_of (h : db.mayWrite = true) : db.checkMayWrite = .ok () :=
  checkMayWrite_eq_ok.mpr h

theorem checkFits_of {column : String} {value : Nat} (h : value < columnEnd) :
    checkFits column value = .ok () := checkFits_eq_ok.mpr h

theorem checkFits?_of {column : String} {value : Option Nat} (h : ∀ n ∈ value, n < columnEnd) :
    checkFits? column value = .ok () := by
  cases value with
  | none => rfl
  | some n => exact checkFits_of (h n rfl)

theorem checkNames_of {α : Type} {row : Option α} (h : row.isSome = true) :
    checkNames row = .ok () := if_pos h

theorem ok_bind {α β : Type} (a : α) (f : α → Except Failure β) : (.ok a >>= f) = f a := rfl

end Database

/-! ## Both stores -/

/-- The database holds the rows of the memory and may write more. The rows could have been written
to it: they refer to origins that are there, and their sizes fit the column. -/
structure Mirrors (m : Memory) (db : Database) : Prop where
  graph : db.graph = m.graph
  lists : db.lists = m.lists
  mayWrite : db.mayWrite = true
  sound : m.Sound
  origins : ∀ s ∈ m.graph.symbols, ∃ o ∈ m.graph.origins, o.id = s.origin
  sizes : ∀ s ∈ m.graph.symbols, s.byteSize < columnEnd

/-- One answer of both stores, which mirror each other afterwards. -/
inductive SameAnswer {α : Type} : Except Failure (α × Memory) → Except Failure (α × Database) → Prop
  | ok {m : Memory} {db : Database} (reply : α) :
    Mirrors m db → SameAnswer (.ok (reply, m)) (.ok (reply, db))
  | error (e : Failure) : SameAnswer (.error e) (.error e)

namespace Mirrors

variable {m : Memory} {db : Database}

theorem empty : Mirrors {} {} where
  graph := rfl
  lists := rfl
  mayWrite := rfl
  sound := Memory.sound_empty
  origins _ h := absurd h List.not_mem_nil
  sizes _ h := absurd h List.not_mem_nil

/-- The database is the rows and the counter of the memory. -/
theorem eq_of (h : Mirrors m db) : db = ⟨m.graph, m.lists, true⟩ := by
  obtain ⟨graph, lists, mayWrite⟩ := db
  obtain ⟨rfl, rfl, rfl, -, -, -⟩ := h
  rfl

theorem of_memory (sound : m.Sound) (origins : ∀ s ∈ m.graph.symbols, ∃ o ∈ m.graph.origins,
    o.id = s.origin) (sizes : ∀ s ∈ m.graph.symbols, s.byteSize < columnEnd) :
    Mirrors m ⟨m.graph, m.lists, true⟩ := ⟨rfl, rfl, rfl, sound, origins, sizes⟩

theorem isSome_symbolById? {g : Graph} {id : SymbolId} (h : ∃ s ∈ g.symbols, s.id = id) :
    (g.symbolById? id).isSome = true := by
  obtain ⟨s, hs, hid⟩ := h
  exact List.find?_isSome.mpr ⟨s, hs, by simpa using hid⟩

theorem isSome_originById? {g : Graph} {id : OriginId} (h : ∃ o ∈ g.origins, o.id = id) :
    (g.originById? id).isSome = true := by
  obtain ⟨o, ho, hid⟩ := h
  exact List.find?_isSome.mpr ⟨o, ho, by simpa using hid⟩

/-! ### Inserts -/

theorem insertOrigin (h : Mirrors m db) (name : String) (littleEndian : Bool) :
    SameAnswer (.ok (m.insertOrigin name littleEndian)) (db.insertOrigin name littleEndian) := by
  obtain rfl := h.eq_of
  have hsound := h.sound.insertOrigin name littleEndian
  unfold Database.insertOrigin
  rw [Database.checkMayWrite_of rfl, Database.ok_bind]
  unfold Memory.insertOrigin at hsound ⊢
  rw [h.sound.origins.find?_eq name] at hsound ⊢
  cases hfind : m.graph.origins.find? fun o => o.name = name with
  | some row => exact .ok _ h
  | none =>
    dsimp only
    rw [hfind] at hsound
    rw [h.sound.numbered.origins.nextId]
    refine .ok _ (of_memory hsound (fun s hs => ?_) h.sizes)
    exact (h.origins s hs).imp fun _ ho => ⟨List.mem_append_left _ ho.1, ho.2⟩

theorem insertSymbol (h : Mirrors m db) {row : NewSymbol} (fits : row.byteSize < columnEnd)
    (names : ∃ o ∈ m.graph.origins, o.id = row.origin) :
    SameAnswer (.ok (m.insertSymbol row)) (db.insertSymbol row) := by
  obtain rfl := h.eq_of
  have hsound := h.sound.insertSymbol row
  unfold Database.insertSymbol
  rw [Database.checkFits_of fits, Database.checkMayWrite_of rfl, Database.ok_bind,
    Database.ok_bind]
  unfold Memory.insertSymbol at hsound ⊢
  rw [h.sound.symbols.find?_eq row.key] at hsound ⊢
  cases hfind : m.graph.symbols.find? fun s => s.key = row.key with
  | some taken => exact .ok _ h
  | none =>
    dsimp only
    rw [hfind] at hsound
    rw [Database.checkNames_of (isSome_originById? names), Database.ok_bind,
      h.sound.numbered.symbols.nextId]
    refine .ok _ (of_memory hsound (fun s hs => ?_) fun s hs => ?_)
    · rcases List.mem_append.mp hs with hs | hs
      · exact h.origins s hs
      · rw [List.mem_singleton.mp hs]
        exact names
    · rcases List.mem_append.mp hs with hs | hs
      · exact h.sizes s hs
      · rw [List.mem_singleton.mp hs]
        exact fits

theorem insertField (h : Mirrors m db) {row : NewField} (fits : (Request.insertField row).Fits)
    (names : (Request.insertField row).NamesRows m.graph) :
    SameAnswer (.ok (m.insertField row)) (db.insertField row) := by
  obtain rfl := h.eq_of
  have hsound := h.sound.insertField row
  unfold Database.insertField
  rw [Database.checkFits_of fits.1, Database.checkFits?_of fits.2.1,
    Database.checkFits?_of fits.2.2, Database.checkMayWrite_of rfl]
  simp only [Database.ok_bind]
  unfold Memory.insertField at hsound ⊢
  rw [h.sound.fields.find?_eq row.key] at hsound ⊢
  cases hfind : m.graph.fields.find? fun f => f.key = row.key with
  | some taken => exact .ok _ h
  | none =>
    dsimp only
    rw [hfind] at hsound
    rw [Database.checkNames_of (isSome_symbolById? names.1),
      Database.checkNames_of (isSome_symbolById? names.2), Database.ok_bind, Database.ok_bind,
      h.sound.numbered.fields.nextId]
    exact .ok _ (of_memory hsound h.origins h.sizes)

/-- The counter has seen the lists of all rows, so a row that is there moves it in neither store. -/
theorem insertDimension (h : Mirrors m db) (list : ListId) (order : Nat) {extent : Nat}
    (fits : extent < columnEnd) :
    SameAnswer (.ok (m.insertDimension list order extent))
      (db.insertDimension list order extent) := by
  obtain rfl := h.eq_of
  have hsound := h.sound.insertDimension list order extent
  unfold Database.insertDimension
  rw [Database.checkFits_of fits, Database.checkMayWrite_of rfl, Database.ok_bind,
    Database.ok_bind]
  unfold Memory.insertDimension at hsound ⊢
  rw [h.sound.dimensions.find?_eq ⟨list, order⟩] at hsound ⊢
  cases hfind : m.graph.dimensions.find? fun d => d.key = ⟨list, order⟩ with
  | some taken =>
    have hkey : taken.key = ⟨list, order⟩ := by simpa using List.find?_some hfind
    have hseen := h.sound.lists taken (List.mem_of_find?_eq_some hfind)
    rw [show taken.list = list from congrArg DimensionKey.list hkey] at hseen
    have hsee : m.lists.see list = m.lists := by
      unfold ListCounter.see
      rw [Int.max_eq_left hseen]
    dsimp only
    rw [hsee]
    exact .ok _ h
  | none =>
    dsimp only
    rw [hfind] at hsound
    rw [h.sound.numbered.dimensions.nextId]
    exact .ok _ (of_memory hsound h.origins h.sizes)

theorem insertEnumerator (h : Mirrors m db) {symbol : SymbolId} (name : String) (value : Int)
    (names : ∃ s ∈ m.graph.symbols, s.id = symbol) :
    SameAnswer (.ok (m.insertEnumerator symbol name value))
      (db.insertEnumerator symbol name value) := by
  obtain rfl := h.eq_of
  have hsound := h.sound.insertEnumerator symbol name value
  unfold Database.insertEnumerator
  rw [Database.checkMayWrite_of rfl, Database.ok_bind]
  unfold Memory.insertEnumerator at hsound ⊢
  rw [h.sound.enumerators.find?_eq ⟨symbol, name⟩] at hsound ⊢
  cases hfind : m.graph.enumerators.find? fun e => e.key = ⟨symbol, name⟩ with
  | some taken => exact .ok _ h
  | none =>
    dsimp only
    rw [hfind] at hsound
    rw [Database.checkNames_of (isSome_symbolById? names), Database.ok_bind,
      h.sound.numbered.enumerators.nextId]
    exact .ok _ (of_memory hsound h.origins h.sizes)

theorem allocateList (h : Mirrors m db) : SameAnswer m.allocateList db.allocateList := by
  obtain rfl := h.eq_of
  unfold Memory.allocateList Database.allocateList ListCounter.next
  dsimp only
  split
  · exact .error _
  · exact .ok _ (of_memory h.sound.allocateList h.origins h.sizes)

/-! ### Changes of a field's type -/

theorem retargetFields (h : Mirrors m db) (old : SymbolId) {new : SymbolId}
    (names : ∃ s ∈ m.graph.symbols, s.id = new) :
    SameAnswer (.ok (m.retargetFields old new)) (db.retargetFields old new) := by
  obtain rfl := h.eq_of
  have hsound := h.sound.answer (.retargetFields old new) rfl
  unfold Database.retargetFields
  rw [Database.checkMayWrite_of rfl, Database.ok_bind,
    Database.checkNames_of (isSome_symbolById? names)]
  dsimp only
  split <;> exact .ok _ (of_memory hsound h.origins h.sizes)

theorem setFieldType (h : Mirrors m db) (field : FieldId) {type : SymbolId}
    (names : ∃ s ∈ m.graph.symbols, s.id = type) :
    SameAnswer (.ok (m.setFieldType field type)) (db.setFieldType field type) := by
  obtain rfl := h.eq_of
  have hsound := h.sound.answer (.setFieldType field type) rfl
  unfold Database.setFieldType
  rw [Database.checkMayWrite_of rfl, Database.ok_bind,
    Database.checkNames_of (isSome_symbolById? names)]
  dsimp only
  split <;> exact .ok _ (of_memory hsound h.origins h.sizes)

/-! ### Look-ups -/

theorem findOrigin (h : Mirrors m db) (name : String) :
    SameAnswer (.ok (m.originIndex.find? name, m)) (.ok (db.findOrigin name, db)) := by
  obtain rfl := h.eq_of
  rw [h.sound.origins.find?_eq name]
  exact .ok _ h

theorem findSymbol (h : Mirrors m db) {key : SymbolKey} (fits : key.byteSize < columnEnd) :
    SameAnswer (.ok (m.symbolIndex.find? key, m))
      ((db.findSymbol key).map fun found => (found, db)) := by
  obtain rfl := h.eq_of
  rw [h.sound.symbols.find?_eq key, Database.findSymbol_eq_ok.mpr ⟨fits, rfl⟩]
  exact .ok _ h

theorem findField (h : Mirrors m db) (key : FieldKey) :
    SameAnswer (.ok (m.fieldIndex.find? key, m)) (.ok (db.findField key, db)) := by
  obtain rfl := h.eq_of
  rw [h.sound.fields.find?_eq key]
  exact .ok _ h

/-! ### All requests -/

/-- Both stores answer a request alike when its numbers fit and its rows are there. -/
theorem answer (h : Mirrors m db) {α : Type} {request : Request α} (fits : request.Fits)
    (names : request.NamesRows m.graph) : SameAnswer (m.answer request) (db.answer request) := by
  cases request with
  | insertOrigin name littleEndian => exact h.insertOrigin name littleEndian
  | insertSymbol row => exact h.insertSymbol fits names
  | insertField row => exact h.insertField fits names
  | insertDimension list order extent => exact h.insertDimension list order fits
  | insertEnumerator symbol name value => exact h.insertEnumerator name value names
  | allocateList => exact h.allocateList
  | retargetFields old new => exact h.retargetFields old names
  | setFieldType field type => exact h.setFieldType field names
  | findOrigin name => exact h.findOrigin name
  | findSymbol key => exact h.findSymbol fits
  | findField key => exact h.findField key
  | symbolById _ | fieldById _ | symbolsNamed _ | snapshot | commit =>
    obtain rfl := h.eq_of
    exact .ok _ h

end Mirrors

/-! ## Numbers that fit no column -/

namespace Database

theorem checkFits_unfit {column : String} {value : Nat} (h : ¬ value < columnEnd) :
    checkFits column value = .error (.store (.outOfRange column value)) := if_neg h

/-- An answer that a number which fits no column has made impossible. -/
def Refused {α : Type} (x : Except Failure α) : Prop :=
  ∃ column value, columnEnd ≤ value ∧ x = .error (.store (.outOfRange column value))

theorem refused_checkFits {α : Type} (column : String) {value : Nat} (h : ¬ value < columnEnd)
    (f : Unit → Except Failure α) : Refused (checkFits column value >>= f) :=
  ⟨column, value, Nat.not_lt.mp h, by rw [checkFits_unfit h]; rfl⟩

theorem refused_checkFits? {α : Type} (column : String) {value : Option Nat}
    (h : ¬ ∀ n ∈ value, n < columnEnd) (f : Unit → Except Failure α) :
    Refused (checkFits? column value >>= f) := by
  cases value with
  | none => exact absurd (fun _ hn => by cases hn) h
  | some n => exact refused_checkFits column (fun hn => h fun _ hm => by cases hm; exact hn) f

/-- A number that fits no column is refused. -/
theorem answer_unfit {α : Type} {request : Request α} (unfit : ¬ request.Fits) (db : Database) :
    Refused (db.answer request) := by
  cases request with
  | insertSymbol row => exact refused_checkFits _ unfit _
  | insertField row =>
    show Refused (db.insertField row)
    unfold insertField
    by_cases hoffset : row.byteOffset < columnEnd
    · rw [checkFits_of hoffset, ok_bind]
      by_cases hsize : ∀ n ∈ row.bitSize, n < columnEnd
      · rw [checkFits?_of hsize, ok_bind]
        exact refused_checkFits? _ (fun hbits => unfit ⟨hoffset, hsize, hbits⟩) _
      · exact refused_checkFits? _ hsize _
    · exact refused_checkFits _ hoffset _
  | insertDimension list order extent => exact refused_checkFits _ unfit _
  | findSymbol key =>
    refine ⟨"byte_size", key.byteSize, Nat.not_lt.mp unfit, ?_⟩
    show (db.findSymbol key).map _ = _
    unfold findSymbol
    rw [checkFits_unfit unfit]
    rfl
  | _ => exact absurd trivial unfit

end Database

end LayoutGraph
