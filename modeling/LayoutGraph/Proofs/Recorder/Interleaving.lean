-- The memo of a recorder and the store behind it. The memo is never told of
-- rows that others add, and nothing in it is ever taken back; but a store
-- loses no row and changes no key. So whatever is merged, forgotten and asked
-- of the store meanwhile, a look-up gives what the store's own gives, and a
-- merge gives the one row that has the key.
import LayoutGraph.Proofs.Growth
import LayoutGraph.Proofs.Ledger.Move
import LayoutGraph.Proofs.Store.Representation

namespace LayoutGraph

open Chain Recorder Recording

/-! ## Moves -/

namespace Recorder

/-- One thing that is done to a recorder, or to the store behind it. -/
inductive Move
  | origin (name : String) (littleEndian : Bool)
  | symbol (row : NewSymbol)
  | field (row : NewField)
  | enumerator (symbol : SymbolId) (name : String) (value : Int)
  | findSymbol (key : SymbolKey)
  | findField (key : FieldKey)
  | forget
  /-- A request that goes to the store itself. The recorder does not learn of it. -/
  | ask {α : Type} (request : Request α)

variable {σ : Type} [Store σ]

/-- The recorder after a move, whether the move went well or failed. -/
def act (r : Recorder σ) : Move → Recorder σ
  | .origin name littleEndian => left (Recording.origin name littleEndian r)
  | .symbol row => left (Recording.symbol row r)
  | .field row => left (Recording.field row r)
  | .enumerator symbol name value => left (Recording.enumerator symbol name value r)
  | .findSymbol key => left (Recording.findSymbol key r)
  | .findField key => left (Recording.findField key r)
  | .forget => left (Recording.forget r)
  | .ask request => { r with store := left (Store.serve request r.store) }

/-- The recorder after moves, the earliest first. -/
def after (r : Recorder σ) (moves : List Move) : Recorder σ := moves.foldl act r

end Recorder

/-- What is left is a recorder as a pass starts with, apart from the log. -/
theorem forget_eq {σ : Type} (r : Recorder σ) :
    forget r = .ok () (({ store := r.store } : Recorder σ).withLog r.log) := rfl

/-! ## What moves keep -/

/-- The memo names rows of the store, which came about by requests. -/
structure InTouch (r : Recorder Memory) : Prop where
  agrees : Agrees r
  reached : r.store.Reached

namespace InTouch

variable {r : Recorder Memory}

theorem start : InTouch { store := {} } := ⟨agrees_start _, .empty⟩

theorem agrees_left {α : Type} {work : Recording Memory α} {reply : α} {t : Recorder Memory}
    (ht : work r = .ok reply t) (agrees : Agrees t) : Agrees (left (work r)) := by
  rw [ht]
  exact agrees

/-- A move of the recorder itself goes well, so the memo names what it found or wrote. A request of
another writer leaves the memo, and the store still holds what the memo names. -/
theorem agrees_act (h : InTouch r) (move : Move) : Agrees (r.act move) := by
  cases move with
  | origin name littleEndian =>
    obtain ⟨t, ht, -⟩ := origin_memory (r := r) name littleEndian
    exact agrees_left ht (origin_ok ht h.agrees).1
  | symbol row =>
    obtain ⟨t, ht, -⟩ := symbol_memory h.agrees row
    exact agrees_left ht (symbol_ok ht h.agrees).1
  | field row =>
    obtain ⟨t, ht, -⟩ := field_memory h.agrees row
    exact agrees_left ht (field_ok ht h.agrees).1
  | enumerator symbol name value =>
    obtain ⟨t, ht, -⟩ := enumerator_memory (r := r) symbol name value
    exact agrees_left ht (enumerator_ok ht h.agrees).1
  | findSymbol key =>
    obtain ⟨t, ht, -⟩ := findSymbol_memory h.agrees key
    exact agrees_left ht (findSymbol_ok ht h.agrees).1
  | findField key =>
    obtain ⟨t, ht, -⟩ := findField_memory h.agrees key
    exact agrees_left ht (findField_ok ht h.agrees).1
  | forget => exact agrees_left (forget_eq r) ((agrees_start r.store).congr rfl rfl rfl)
  | ask request =>
    constructor
    · intro key id hfind
      exact Faultless.lasts request r.store _ (h.agrees.symbols key id hfind)
    · intro key id hfind
      exact Faultless.lasts request r.store _ (h.agrees.fields key id hfind)

/-- Every move reaches the store through requests alone. -/
theorem reached_act (h : InTouch r) (move : Move) : (r.act move).store.Reached := by
  have steady := Memory.steady_reached
  cases move with
  | origin name littleEndian => exact steady.origin name littleEndian r h.reached
  | symbol row => exact steady.symbol row r h.reached
  | field row => exact steady.field row r h.reached
  | enumerator symbol name value => exact steady.enumerator symbol name value r h.reached
  | findSymbol key => exact steady.findSymbol key r h.reached
  | findField key => exact steady.findField key r h.reached
  | forget => exact h.reached
  | ask request => exact steady.serve request r.store h.reached

theorem act (h : InTouch r) (move : Move) : InTouch (r.act move) :=
  ⟨h.agrees_act move, h.reached_act move⟩

theorem after (h : InTouch r) (moves : List Move) : InTouch (r.after moves) := by
  induction moves generalizing r with
  | nil => exact h
  | cons move rest ih =>
    apply ih
    exact h.act move

end InTouch

/-! ## Look-ups and merges -/

/-- The work gives what the store replies to the request, and leaves the store alone. -/
def Echoes {α : Type} (work : Recording Memory α) (request : Request α) (r : Recorder Memory) :
    Prop :=
  ∃ reply t, work r = .ok reply t ∧ t.store = r.store ∧
    r.store.answer request = .ok (reply, r.store)

/-- A merge of a row into a table. Afterwards one row has the key, and the reply names it. The reply
says whether the row was added by this merge: if it was, nothing else changed, and if it was not,
nothing changed. -/
structure Merged {κ ι ρ : Type} [DecidableEq κ] (table : Graph → List ρ)
    (fill : Graph → List ρ → Graph) (key : ρ → κ) (id : ρ → ι) (k : κ) (row : ι → ρ)
    (reply : Inserted ι) (before after : Graph) : Prop where
  sole : ∃ r, ((table after).filter fun other => key other = k) = [r] ∧ id r = reply.id
  created : reply.wasCreated = true ↔ after = fill before (table before ++ [row reply.id])
  existing : reply.wasCreated = false ↔ after = before

def NewSymbol.MergedAs (row : NewSymbol) : Inserted SymbolId → Graph → Graph → Prop :=
  Merged Graph.symbols (fun g symbols => { g with symbols }) Symbol.key Symbol.id row.key row.withId

def NewField.MergedAs (row : NewField) : Inserted FieldId → Graph → Graph → Prop :=
  Merged Graph.fields (fun g fields => { g with fields }) Field.key Field.id row.key row.withId

section

variable {κ ι ρ : Type} [DecidableEq κ] {rows : List ρ} {key : ρ → κ} {id : ρ → ι} {raw : ι → Int}

/-- Where keys are not repeated, a row is the only one of its key. -/
theorem filter_key_of_nodup (once : (rows.map key).Nodup) {r : ρ} (hr : r ∈ rows) :
    (rows.filter fun other => key other = key r) = [r] := by
  induction rows with
  | nil => cases hr
  | cons first rest ih =>
    obtain ⟨hnew, once⟩ := List.nodup_cons.mp once
    by_cases hkey : key first = key r
    · have hfirst : r = first := by
        rcases List.mem_cons.mp hr with h | h
        · exact h
        · exact absurd (hkey ▸ List.mem_map_of_mem h) hnew
      subst hfirst
      have hnone : (rest.filter fun other => key other = key r) = [] := by
        apply List.filter_eq_nil_iff.mpr
        intro other hother
        have hne : key other ≠ key r := fun heq => hnew (heq ▸ List.mem_map_of_mem hother)
        simpa using hne
      rw [List.filter_cons_of_pos (by simp), hnone]
    · have hrest : r ∈ rest := by
        rcases List.mem_cons.mp hr with h | h
        · exact absurd (congrArg key h.symm) hkey
        · exact h
      simp [hkey, ih once hrest]

variable [DecidableEq ι] {index : Index κ ι}

theorem Indexed.sole (h : Indexed index rows key id raw)
    (numbered : Numbered (fun r => raw (id r)) rows) {k : κ} {i : ι} (hk : index.find? k = some i) :
    ∃ r, (rows.filter fun other => key other = k) = [r] ∧ id r = i := by
  obtain ⟨r, hr, rfl, hid⟩ := h.mem_of_found hk
  exact ⟨r, filter_key_of_nodup (h.nodup numbered) hr, hid⟩

end

/-- An insert that reports whether it placed its row merged it. -/
theorem Placed.merged {κ ι ρ : Type} [DecidableEq κ] {table : Graph → List ρ}
    {fill : Graph → List ρ → Graph} {key : ρ → κ} {id : ρ → ι} {raw : ι → Int} {k : κ}
    {row : ι → ρ} {reply : Inserted ι} {before after : Graph}
    (h : Placed (table before) key id raw k row (fill before) reply before after)
    (filled : ∀ g rows, table (fill g rows) = rows)
    (sole : ∃ r, ((table after).filter fun other => key other = k) = [r] ∧ id r = reply.id) :
    Merged table fill key id k row reply before after := by
  have longer : ∀ r, before ≠ fill before (table before ++ [r]) := by
    intro r heq
    have hrows := congrArg table heq
    rw [filled] at hrows
    simp at hrows
  cases reply with
  | created i =>
    obtain ⟨-, hafter⟩ := h.created i rfl
    refine ⟨sole, iff_of_true rfl hafter, iff_of_false nofun ?_⟩
    intro hsame
    exact longer _ (hsame.symm.trans hafter)
  | existing i =>
    obtain ⟨r, hr, -, hkey⟩ := (h.existing i).mp rfl
    have hsame : after = before := h.unchanged.mpr ⟨r, hr, hkey⟩
    refine ⟨sole, iff_of_false nofun ?_, iff_of_true rfl hsame⟩
    intro hafter
    exact longer _ (hsame.symm.trans hafter)

namespace InTouch

variable {r : Recorder Memory}

theorem findSymbol_echoes (h : InTouch r) (key : SymbolKey) :
    Echoes (findSymbol key) (.findSymbol key) r := by
  obtain ⟨t, ht, hstore⟩ := findSymbol_memory h.agrees key
  exact ⟨_, t, ht, hstore, rfl⟩

theorem findField_echoes (h : InTouch r) (key : FieldKey) :
    Echoes (findField key) (.findField key) r := by
  obtain ⟨t, ht, hstore⟩ := findField_memory h.agrees key
  exact ⟨_, t, ht, hstore, rfl⟩

theorem symbol_merged (h : InTouch r) (row : NewSymbol) :
    ∃ inserted t, symbol row r = .ok inserted t ∧
      row.MergedAs inserted r.store.graph t.store.graph := by
  obtain ⟨t, ht, hstore⟩ := symbol_memory h.agrees row
  refine ⟨_, t, ht, ?_⟩
  rw [hstore]
  have sound := h.reached.sound.insertSymbol row
  have named : (r.store.insertSymbol row).2.Names (.symbol row.key (r.store.insertSymbol row).1.id) :=
    Memory.names_of_insert (.insertSymbol row) rfl rfl
  apply Placed.merged
  · exact h.reached.sound.placed_symbol row
  · exact fun _ _ => rfl
  · exact sound.symbols.sole sound.numbered.symbols named

theorem field_merged (h : InTouch r) (row : NewField) :
    ∃ inserted t, field row r = .ok inserted t ∧
      row.MergedAs inserted r.store.graph t.store.graph := by
  obtain ⟨t, ht, hstore⟩ := field_memory h.agrees row
  refine ⟨_, t, ht, ?_⟩
  rw [hstore]
  have sound := h.reached.sound.insertField row
  have named : (r.store.insertField row).2.Names (.field row.key (r.store.insertField row).1.id) :=
    Memory.names_of_insert (.insertField row) rfl rfl
  apply Placed.merged
  · exact h.reached.sound.placed_field row
  · exact fun _ _ => rfl
  · exact sound.fields.sole sound.numbered.fields named

end InTouch

/-! ## The law -/

/-- Whatever moves a recorder made on a store that began empty, with whatever requests of others to
the store in between: its look-ups give what the store's own look-ups give, and its merges of
symbols and fields give the one row that has the key and say whether they added it. -/
theorem the_memo_never_disagrees_with_the_store (moves : List Move) :
    let r := ({ store := {} } : Recorder Memory).after moves
    (∀ key, Echoes (findSymbol key) (.findSymbol key) r) ∧
    (∀ key, Echoes (findField key) (.findField key) r) ∧
    (∀ row, ∃ inserted t, symbol row r = .ok inserted t ∧
      row.MergedAs inserted r.store.graph t.store.graph) ∧
    ∀ row, ∃ inserted t, field row r = .ok inserted t ∧
      row.MergedAs inserted r.store.graph t.store.graph := by
  intro r
  have h : InTouch r := InTouch.start.after moves
  exact ⟨h.findSymbol_echoes, h.findField_echoes, h.symbol_merged, h.field_merged⟩

/-- A symbol that another writer adds behind a look-up that missed it is not added again. -/
example :
    let int : NewSymbol := ⟨⟨1⟩, "int", 4⟩
    let r := ({ store := {} } : Recorder Memory).after
      [.findSymbol int.key, .ask (.insertSymbol int), .symbol int, .forget, .findSymbol int.key]
    r.store.graph.symbols = [int.withId ⟨1⟩] ∧ r.memo.symbols.find? int.key = some ⟨1⟩ := by
  decide +kernel

end LayoutGraph
