-- Moves of the recorder on a store whose calls may go wrong. A move that ends
-- well did to the rows what the plain insert does, and one that fails changed
-- none of them: the memo and the second look-up after a taken key hide nothing.
import LayoutGraph.Proofs.Recorder.Agreement
import LayoutGraph.Proofs.Store.Unreliable

namespace LayoutGraph

open Chain Recording

variable {σ : Type} [Store σ] [Unreliable σ]

/-- The rows behind a recorder. -/
def Recorder.memory (r : Recorder σ) : Memory := Unreliable.memory r.store

/-- Faults that only make calls fail. -/
def ErrorsOnly (σ : Type) [Store σ] [Unreliable σ] : Prop :=
  ∀ (s : σ) (method : Method) (fault : FaultMode),
    Unreliable.mode s method = some fault → fault = .error

/-- The memo names rows that are there. -/
structure Recalls (r : Recorder σ) : Prop where
  symbols : ∀ key id, r.memo.symbols.find? key = some id → r.memory.Names (.symbol key id)
  fields : ∀ key id, r.memo.fields.find? key = some id → r.memory.Names (.field key id)

theorem recalls_start (s : σ) : Recalls ({ store := s } : Recorder σ) := by
  constructor <;> intro key id h <;> cases h

namespace Recalls

variable {r t : Recorder σ}

/-- The counters and the log are no part of what is recalled. -/
theorem congr (h : Recalls r) (hmemory : t.memory = r.memory)
    (hsymbols : t.memo.symbols = r.memo.symbols) (hfields : t.memo.fields = r.memo.fields) :
    Recalls t := by
  constructor
  · rw [hmemory, hsymbols]
    exact h.symbols
  · rw [hmemory, hfields]
    exact h.fields

/-- What is recalled lasts, whatever is asked. -/
theorem answer (h : Recalls r) {α : Type} {request : Request α} {reply : α}
    (hanswer : r.memory.answer request = .ok (reply, t.memory))
    (hsymbols : t.memo.symbols = r.memo.symbols) (hfields : t.memo.fields = r.memo.fields) :
    Recalls t := by
  constructor <;> intro key id hfind
  · rw [hsymbols] at hfind
    exact Memory.names_lasts _ hanswer (h.symbols key id hfind)
  · rw [hfields] at hfind
    exact Memory.names_lasts _ hanswer (h.fields key id hfind)

theorem insertSymbol (h : Recalls r) {key : SymbolKey} {id : SymbolId}
    (hid : r.memory.Names (.symbol key id)) :
    Recalls { r with memo := { r.memo with symbols := r.memo.symbols.insert key id } } := by
  refine ⟨fun other found hfind => ?_, h.fields⟩
  rw [Index.find?_insert] at hfind
  split at hfind
  · rename_i heq
    cases hfind
    exact heq ▸ hid
  · exact h.symbols other found hfind

theorem insertField (h : Recalls r) {key : FieldKey} {id : FieldId}
    (hid : r.memory.Names (.field key id)) :
    Recalls { r with memo := { r.memo with fields := r.memo.fields.insert key id } } := by
  refine ⟨h.symbols, fun other found hfind => ?_⟩
  rw [Index.find?_insert] at hfind
  split at hfind
  · rename_i heq
    cases hfind
    exact heq ▸ hid
  · exact h.fields other found hfind

end Recalls

/-! ## Requests -/

theorem ask_struck {α : Type} (request : Request α) (r : Recorder σ) :
    Ends
      (fun reply t => t.memo = r.memo ∧ (r.memory.answer request = .ok (reply, t.memory) ∨
        Unreliable.mode r.store request.method = some .miss ∧ request.nothing? = some reply ∧
          t.memory = r.memory))
      (fun e t => t.memo = r.memo ∧ t.memory = r.memory ∧
        request.Blames r.memory (Unreliable.mode r.store request.method) e)
      (ask request r) := by
  have h := Unreliable.serve_ends request r.store
  unfold ask
  cases heq : Store.serve request r.store <;> rw [heq] at h
  · exact ⟨rfl, h⟩
  · exact ⟨rfl, h⟩

/-- A request that looks nothing up is answered only where it is served. -/
theorem ask_served {α : Type} (request : Request α) (plain : request.nothing? = none)
    (r : Recorder σ) :
    Ends
      (fun reply t => t.memo = r.memo ∧ r.memory.answer request = .ok (reply, t.memory))
      (fun e t => t.memo = r.memo ∧ t.memory = r.memory ∧
        request.Blames r.memory (Unreliable.mode r.store request.method) e)
      (ask request r) := by
  refine (ask_struck request r).mono (fun reply t h => ⟨h.1, ?_⟩) fun _ _ h => h
  rcases h.2 with h | ⟨-, h, -⟩
  · exact h
  · rw [plain] at h
    cases h

/-- A look-up gives the row that has the key, or nothing, and leaves the rows alone. -/
theorem ask_found {ι : Type} {find : Request (Option ι)} {r : Recorder σ} {found : Option ι}
    (hanswer : r.memory.answer find = .ok (found, r.memory))
    (hnothing : find.nothing? = some none) :
    Ends
      (fun reply t => t.memo = r.memo ∧ t.memory = r.memory ∧
        ∀ id, reply = some id → found = some id)
      (fun _ t => t.memo = r.memo ∧ t.memory = r.memory) (ask find r) := by
  refine (ask_struck find r).mono (fun reply t h => ⟨h.1, ?_⟩) fun _ _ h => ⟨h.1, h.2.1⟩
  rcases h.2 with h | ⟨-, h, hsame⟩
  · rw [hanswer] at h
    obtain ⟨rfl, hsame⟩ := Prod.mk.inj (Except.ok.inj h)
    exact ⟨hsame.symm, fun _ h => h⟩
  · rw [hnothing] at h
    cases h
    exact ⟨hsame, nofun⟩

/-! ## Look-ups -/

theorem findSymbol_struck {r : Recorder σ} (hr : Recalls r) (key : SymbolKey) :
    Ends
      (fun found t => Recalls t ∧ t.memory = r.memory ∧
        ∀ id, found = some id → r.memory.Names (.symbol key id))
      (fun _ t => t.memory = r.memory) (findSymbol key r) := by
  rw [findSymbol_eq]
  split
  · rename_i id hmemo
    refine ⟨hr, rfl, fun other hother => ?_⟩
    cases hother
    exact hr.symbols key id hmemo
  · refine ends_bind ((ask_found rfl rfl).mono (fun found t h => ?_) fun _ _ h => h.2)
    obtain ⟨hmemo, hmemory, hfound⟩ := h
    have ht : Recalls t := hr.congr hmemory (congrArg _ hmemo) (congrArg _ hmemo)
    cases found with
    | none => exact ⟨ht, hmemory, nofun⟩
    | some id =>
      have hid : r.memory.Names (.symbol key id) := hfound id rfl
      refine ⟨ht.insertSymbol (hmemory ▸ hid), hmemory, fun other hother => ?_⟩
      cases hother
      exact hid

theorem findField_struck {r : Recorder σ} (hr : Recalls r) (key : FieldKey) :
    Ends
      (fun found t => Recalls t ∧ t.memory = r.memory ∧
        ∀ id, found = some id → r.memory.Names (.field key id))
      (fun _ t => t.memory = r.memory) (findField key r) := by
  rw [findField_eq]
  split
  · rename_i id hmemo
    refine ⟨hr, rfl, fun other hother => ?_⟩
    cases hother
    exact hr.fields key id hmemo
  · refine ends_bind ((ask_found rfl rfl).mono (fun found t h => ?_) fun _ _ h => h.2)
    obtain ⟨hmemo, hmemory, hfound⟩ := h
    have ht : Recalls t := hr.congr hmemory (congrArg _ hmemo) (congrArg _ hmemo)
    cases found with
    | none => exact ⟨ht, hmemory, nofun⟩
    | some id =>
      have hid : r.memory.Names (.field key id) := hfound id rfl
      refine ⟨ht.insertField (hmemory ▸ hid), hmemory, fun other hother => ?_⟩
      cases hother
      exact hid

/-! ## Rows -/

/-- However the row of an insert was had, it is the row that the plain insert gives. -/
theorem recover_struck {ι : Type} {taken : TakenKey} {raw : ι → Int}
    {insert : Request (Inserted ι)} {find : Request (Option ι)} {r : Recorder σ}
    {plain : Inserted ι × Memory} (found : Option ι) (hinsert : r.memory.answer insert = .ok plain)
    (hfind : r.memory.answer find = .ok (found, r.memory))
    (served : insert.nothing? = none) (lookup : find.nothing? = some none)
    (known : ∀ id, found = some id → plain = (.existing id, r.memory)) :
    Ends
      (fun inserted t => (inserted, t.memory) = plain ∧ t.memo.symbols = r.memo.symbols ∧
        t.memo.fields = r.memo.fields)
      (fun _ t => t.memory = r.memory) (recover taken raw (ask insert) (ask find) r) := by
  have h := ask_served _ served r
  unfold recover
  split <;> rename_i heq <;> rw [heq] at h
  · obtain ⟨hmemo, hanswer⟩ := h
    exact ⟨Except.ok.inj (hanswer.symm.trans hinsert), congrArg _ hmemo, congrArg _ hmemo⟩
  · obtain ⟨hmemo, hanswer⟩ := h
    have hsymbols := congrArg Memo.symbols hmemo
    have hfields := congrArg Memo.fields hmemo
    exact ⟨Except.ok.inj (hanswer.symm.trans hinsert), hsymbols, hfields⟩
  · -- The insert reports a taken key, so the row is looked up once more.
    obtain ⟨hmemo, hmemory, -⟩ := h
    refine ends_bind ((ask_found (hmemory ▸ hfind) lookup).mono (fun reply t h => ?_) ?_)
    · obtain ⟨hmemo', hmemory', hreply⟩ := h
      rw [hmemo] at hmemo'
      rw [hmemory] at hmemory'
      cases reply with
      | none => exact hmemory'
      | some id =>
        have hsymbols := congrArg Memo.symbols hmemo'
        have hfields := congrArg Memo.fields hmemo'
        refine ⟨?_, hsymbols, hfields⟩
        rw [known id (hreply id rfl)]
        exact congrArg _ hmemory'
    · exact fun _ _ h => h.2.trans hmemory
  · exact h.2.1

theorem origin_struck {r : Recorder σ} (hr : Recalls r) (name : String) (littleEndian : Bool) :
    Ends
      (fun id t => Recalls t ∧ t.memory.Names (.origin name id) ∧
        t.memory = (r.memory.insertOrigin name littleEndian).2)
      (fun _ t => t.memory = r.memory) (origin name littleEndian r) := by
  have known : ∀ id, r.memory.originIndex.find? name = some id →
      r.memory.insertOrigin name littleEndian = (.existing id, r.memory) := fun id hid => by
    unfold Memory.insertOrigin
    rw [hid]
  unfold origin
  refine ends_bind ((ask_found rfl rfl).mono (fun found t h => ?_) fun _ _ h => h.2)
  obtain ⟨hmemo, hmemory, hfound⟩ := h
  have ht : Recalls t := hr.congr hmemory (congrArg _ hmemo) (congrArg _ hmemo)
  cases found with
  | some id =>
    have hid := hfound id rfl
    refine ⟨ht.congr rfl rfl rfl, hmemory ▸ hid, ?_⟩
    rw [known id hid]
    exact hmemory
  | none =>
    rw [← hmemory] at known ⊢
    refine ends_bind ((recover_struck _ rfl rfl rfl rfl known).mono (fun inserted u h => ?_)
      fun _ _ h => h)
    obtain ⟨hplain, hsymbols, hfields⟩ := h
    have hanswer : t.memory.answer (.insertOrigin name littleEndian) = .ok (inserted, u.memory) :=
      congrArg Except.ok hplain.symm
    exact ⟨ht.answer hanswer hsymbols hfields, Memory.names_of_insert _ hanswer rfl,
      congrArg Prod.snd hplain⟩

theorem symbol_struck {r : Recorder σ} (hr : Recalls r) (row : NewSymbol) :
    Ends
      (fun inserted t => Recalls t ∧ t.memory.Names (.symbol row.key inserted.id) ∧
        (inserted, t.memory) = r.memory.insertSymbol row)
      (fun _ t => t.memory = r.memory) (symbol row r) := by
  unfold symbol
  refine ends_bind ((findSymbol_struck hr row.key).mono (fun found t h => ?_) fun _ _ h => h)
  obtain ⟨ht, hmemory, hfound⟩ := h
  cases found with
  | some id =>
    have hid := hfound id rfl
    refine ⟨ht.congr rfl rfl rfl, hmemory ▸ hid, ?_⟩
    rw [Memory.insertSymbol_of_some hid]
    exact congrArg _ hmemory
  | none =>
    rw [← hmemory]
    refine ends_bind ((recover_struck (t.memory.symbolIndex.find? row.key) rfl rfl rfl rfl
      fun id => Memory.insertSymbol_of_some).mono (fun inserted u h => ?_) fun _ _ h => h)
    obtain ⟨hplain, hsymbols, hfields⟩ := h
    have hanswer : t.memory.answer (.insertSymbol row) = .ok (inserted, u.memory) :=
      congrArg Except.ok hplain.symm
    have hid := Memory.names_of_insert _ hanswer rfl
    have hu := (ht.answer hanswer hsymbols hfields).insertSymbol hid
    cases inserted <;> exact ⟨hu.congr rfl rfl rfl, hid, hplain⟩

theorem field_struck {r : Recorder σ} (hr : Recalls r) (row : NewField) :
    Ends
      (fun inserted t => Recalls t ∧ (inserted, t.memory) = r.memory.insertField row)
      (fun _ t => t.memory = r.memory) (field row r) := by
  unfold field
  refine ends_bind ((findField_struck hr row.key).mono (fun found t h => ?_) fun _ _ h => h)
  obtain ⟨ht, hmemory, hfound⟩ := h
  cases found with
  | some id =>
    refine ⟨ht.congr rfl rfl rfl, ?_⟩
    rw [Memory.insertField_of_some (hfound id rfl)]
    exact congrArg _ hmemory
  | none =>
    rw [← hmemory]
    refine ends_bind ((recover_struck (t.memory.fieldIndex.find? row.key) rfl rfl rfl rfl
      fun id => Memory.insertField_of_some).mono (fun inserted u h => ?_) fun _ _ h => h)
    obtain ⟨hplain, hsymbols, hfields⟩ := h
    have hanswer : t.memory.answer (.insertField row) = .ok (inserted, u.memory) :=
      congrArg Except.ok hplain.symm
    have hid := Memory.names_of_insert _ hanswer rfl
    have hu := (ht.answer hanswer hsymbols hfields).insertField hid
    cases inserted <;> exact ⟨hu.congr rfl rfl rfl, hplain⟩

/-- A constant whose key is reported as taken is passed over. Where faults only make calls fail, no
key is reported so. -/
theorem enumerator_struck {r : Recorder σ} (hr : Recalls r) (owner : SymbolId) (name : String)
    (value : Int) :
    Ends
      (fun _ t => Recalls t ∧ (t.memory = (r.memory.insertEnumerator owner name value).2 ∨
        ¬ ErrorsOnly σ ∧ t.memory = r.memory))
      (fun _ t => t.memory = r.memory) (enumerator owner name value r) := by
  have h := ask_served (.insertEnumerator owner name value) rfl r
  unfold enumerator
  split <;> rename_i heq <;> rw [heq] at h
  · obtain ⟨hmemo, hanswer⟩ := h
    have ht := hr.answer hanswer (congrArg _ hmemo) (congrArg _ hmemo)
    exact ⟨ht.congr rfl rfl rfl, .inl (congrArg Prod.snd (Except.ok.inj hanswer)).symm⟩
  · obtain ⟨hmemo, hanswer⟩ := h
    exact ⟨hr.answer hanswer (congrArg _ hmemo) (congrArg _ hmemo),
      .inl (congrArg Prod.snd (Except.ok.inj hanswer)).symm⟩
  · obtain ⟨hmemo, hmemory, hblames⟩ := h
    have hsymbols := congrArg Memo.symbols hmemo
    have hfields := congrArg Memo.fields hmemo
    refine ⟨hr.congr hmemory hsymbols hfields, .inr ⟨fun only => ?_, hmemory⟩⟩
    rcases hblames with hanswer | ⟨fault, hmode, hplanned⟩
    · cases hanswer
    · cases hplanned (only _ _ _ hmode)
  · exact h.2.1

theorem symbolId_struck {r : Recorder σ} (hr : Recalls r) (setting : Setting) (key : SymbolKey) :
    Ends
      (fun id t => Recalls t ∧ t.memory.Names (.symbol key id) ∧
        t.memory = (r.memory.insertSymbol ⟨setting.origin, key.name, key.byteSize⟩).2)
      (fun _ t => t.memory = r.memory) (symbolId setting key r) := by
  let row : NewSymbol := ⟨setting.origin, key.name, key.byteSize⟩
  rw [symbolId_eq]
  split
  · rename_i id hmemo
    have hid := hr.symbols key id hmemo
    refine ⟨hr, hid, ?_⟩
    have hsame : r.memory.insertSymbol row = (.existing id, r.memory) :=
      Memory.insertSymbol_of_some hid
    rw [hsame]
  · refine ends_bind ((symbol_struck hr row).mono (fun inserted t h => ?_) fun _ _ h => h)
    exact ⟨h.1, h.2.1, congrArg Prod.snd h.2.2⟩

theorem listFor_struck {r : Recorder σ} (hr : Recalls r) (extents : List Nat) :
    Ends
      (fun list t => Recalls t ∧ if extents.isEmpty then list = none ∧ t.memory = r.memory
        else list = some ⟨r.memory.lists.last + 1⟩ ∧
          t.memory = { r.memory with lists := ⟨r.memory.lists.last + 1⟩ })
      (fun _ t => t.memory = r.memory) (listFor extents r) := by
  unfold listFor
  split
  · exact ⟨hr, rfl, rfl⟩
  · refine ends_bind ((ask_served _ rfl r).mono (fun list t h => ?_) fun _ _ h => h.2.1)
    obtain ⟨hmemo, hanswer⟩ := h
    refine ⟨hr.answer hanswer (congrArg _ hmemo) (congrArg _ hmemo), ?_⟩
    simp only [Memory.answer, Memory.allocateList, ListCounter.next] at hanswer
    split at hanswer
    · cases hanswer
    · injection hanswer with hpair
      exact ⟨congrArg some (congrArg Prod.fst hpair).symm, (congrArg Prod.snd hpair).symm⟩

end LayoutGraph
