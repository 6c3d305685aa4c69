-- What is seen of a recorder, apart from its log and its count of recovered
-- conflicts. Look-ups that miss and taken keys that are reported as failures
-- change nothing of it: each move shows what it shows without faults.
import LayoutGraph.Proofs.Recorder.Struck

namespace LayoutGraph

open Chain Recording

/-! ## Faults from which a pass recovers -/

/-- Inserts whose row is looked up once more where their key is reported as taken. -/
def Method.looksAgain : Method → Bool
  | .insertOrigin | .insertSymbol | .insertField => true
  | _ => false

/-- Look-ups may find nothing and inserts may report a taken key instead of naming its row. The call
behind a reported key, which looks up the row once more, is served as without faults. -/
structure Mild (σ : Type) [Store σ] [Unreliable σ] : Prop where
  kinds : ∀ (s : σ) (method : Method) (fault : FaultMode),
    Unreliable.mode s method = some fault → fault = .miss ∨ fault = .collide
  truthful : ∀ {α : Type} {request : Request α} {s t : σ} {e : Failure},
    Store.serve request s = .error e t → request.method.looksAgain = true →
      ∀ method, Unreliable.mode t method = none

theorem mild_memory : Mild Memory where
  kinds _ _ _ h := by cases h
  truthful _ _ _ := rfl

/-- A store in memory that is struck as scheduled. Only the call behind an insert that failed, by
which the row is looked up once more, is never struck. So whatever look-ups miss and whatever
inserts collide in a pass, the pass is one on such a store as long as those calls are truthful. -/
structure Truthful (faults : Nat → Method → Option FaultMode) where
  memory : Memory := {}
  calls : Nat := 0
  /-- The next call looks up a row once more. -/
  again : Bool := false

namespace Truthful

variable {faults : Nat → Method → Option FaultMode}

def mode (s : Truthful faults) (method : Method) : Option FaultMode :=
  if s.again then none else faults s.calls method

instance : Store (Truthful faults) where
  serve request := fun s =>
    match request.serveIn (s.mode request.method) s.memory with
    | .ok reply memory => .ok reply ⟨memory, s.calls + 1, false⟩
    | .error e memory => .error e ⟨memory, s.calls + 1, request.method.looksAgain⟩

instance : Unreliable (Truthful faults) where
  memory := memory
  mode := mode
  serves request s := by
    simp only [Store.serve]
    cases request.serveIn (s.mode request.method) s.memory <;> rfl

theorem mild (kinds : ∀ call method fault, faults call method = some fault →
    fault = .miss ∨ fault = .collide) : Mild (Truthful faults) where
  kinds s method fault h := by
    simp only [Unreliable.mode, mode] at h
    split at h
    · cases h
    · exact kinds _ _ _ h
  truthful {α request s t e} h hagain method := by
    simp only [Store.serve] at h
    split at h <;> cases h
    exact if_pos hagain

end Truthful

/-! ## Calls under such faults -/

namespace Memory

variable {m n : Memory}

theorem insertOrigin_taken {name : String} {littleEndian : Bool} {inserted : Inserted OriginId}
    (h : m.insertOrigin name littleEndian = (inserted, n))
    (taken : (Request.insertOrigin name littleEndian).namesTaken inserted) :
    ∃ id, m.originIndex.find? name = some id ∧ inserted = .existing id ∧ n = m := by
  unfold insertOrigin at h
  cases hfind : m.originIndex.find? name with
  | some id =>
    rw [hfind] at h
    cases h
    exact ⟨id, rfl, rfl, rfl⟩
  | none =>
    rw [hfind] at h
    cases h
    cases taken

theorem insertSymbol_taken {row : NewSymbol} {inserted : Inserted SymbolId}
    (h : m.insertSymbol row = (inserted, n))
    (taken : (Request.insertSymbol row).namesTaken inserted) :
    ∃ id, m.symbolIndex.find? row.key = some id ∧ inserted = .existing id ∧ n = m := by
  unfold insertSymbol at h
  cases hfind : m.symbolIndex.find? row.key with
  | some id =>
    rw [hfind] at h
    cases h
    exact ⟨id, rfl, rfl, rfl⟩
  | none =>
    rw [hfind] at h
    cases h
    cases taken

theorem insertField_taken {row : NewField} {inserted : Inserted FieldId}
    (h : m.insertField row = (inserted, n))
    (taken : (Request.insertField row).namesTaken inserted) :
    ∃ id, m.fieldIndex.find? row.key = some id ∧ inserted = .existing id ∧ n = m := by
  unfold insertField at h
  cases hfind : m.fieldIndex.find? row.key with
  | some id =>
    rw [hfind] at h
    cases h
    exact ⟨id, rfl, rfl, rfl⟩
  | none =>
    rw [hfind] at h
    cases h
    cases taken

end Memory

/-- Under such faults a request is served, or it reports a key that is taken, or it finds
nothing. -/
theorem Request.serveIn_mild {α : Type} (request : Request α) {mode : Option FaultMode}
    (kinds : ∀ fault, mode = some fault → fault = .miss ∨ fault = .collide) (m : Memory) :
    request.serveIn mode m = Store.serve request m ∨
      (∃ reply n, m.answer request = .ok (reply, n) ∧ request.namesTaken reply = true ∧
        request.serveIn mode m = .error (Faulty.plannedConflict request.method) n) ∨
      ∃ reply, request.nothing? = some reply ∧ request.serveIn mode m = .ok reply m := by
  match mode with
  | none => exact .inl rfl
  | some .error => cases kinds _ rfl <;> contradiction
  | some .conflict => cases kinds _ rfl <;> contradiction
  | some .collide =>
    unfold serveIn
    dsimp only
    cases hserve : Store.serve request m with
    | error e n => exact .inl rfl
    | ok reply n =>
      dsimp only
      split
      · exact .inr (.inl ⟨reply, n, ofStep_ok_iff.mp hserve, ‹_›, rfl⟩)
      · exact .inl rfl
  | some .miss =>
    unfold serveIn
    dsimp only
    cases request.nothing? with
    | some reply => exact .inr (.inr ⟨reply, rfl, rfl⟩)
    | none => exact .inl rfl

/-! ## What is seen -/

/-- The counters without that of recovered conflicts. -/
def Tally.apartFromConflicts (t : Tally) : Tally := { t with conflictsRecovered := 0 }

/-- The rows, what the memo knows, and the counters apart from that of recovered conflicts. -/
structure Sight where
  memory : Memory
  symbols : Index SymbolKey SymbolId
  fields : Index FieldKey FieldId
  tally : Tally

def Sight.withMemory (v : Sight) (memory : Memory) : Sight := { v with memory }

variable {σ : Type} [Store σ] [Unreliable σ]

def Recorder.sight (r : Recorder σ) : Sight :=
  ⟨r.memory, r.memo.symbols, r.memo.fields, r.memo.tally.apartFromConflicts⟩

theorem ask_sight {α : Type} (request : Request α) (r : Recorder σ) :
    onState Recorder.sight (ask request r) =
      onState r.sight.withMemory
        (request.serveIn (Unreliable.mode r.store request.method) r.memory) := by
  unfold Recorder.memory
  rw [← Unreliable.serves]
  unfold ask
  cases Store.serve request r.store <;> rfl

theorem serve_of_answer {α : Type} {request : Request α} {m n : Memory} {reply : α}
    (h : m.answer request = .ok (reply, n)) : Store.serve request m = .ok reply n :=
  ofStep_ok_iff.mpr h

/-- What is seen of a request that is served, or reports a key that is taken, or finds nothing. -/
theorem ask_mild (mild : Mild σ) {α : Type} (request : Request α) (r : Recorder σ) :
    onState Recorder.sight (ask request r) =
        onState r.sight.withMemory (Store.serve request r.memory) ∨
      (∃ reply n, r.memory.answer request = .ok (reply, n) ∧ request.namesTaken reply = true ∧
        onState Recorder.sight (ask request r) =
          .error (Faulty.plannedConflict request.method) (r.sight.withMemory n)) ∨
      ∃ reply, request.nothing? = some reply ∧
        onState Recorder.sight (ask request r) = .ok reply r.sight := by
  rw [ask_sight]
  rcases request.serveIn_mild (mild.kinds r.store request.method) r.memory with
    h | ⟨reply, n, hreply, htaken, h⟩ | ⟨reply, hnothing, h⟩
  · rw [h]
    exact .inl rfl
  · rw [h]
    exact .inr (.inl ⟨reply, n, hreply, htaken, rfl⟩)
  · rw [h]
    exact .inr (.inr ⟨reply, hnothing, rfl⟩)

/-- A request that looks nothing up and names no row that was there shows what it does to the
rows. -/
theorem ask_sight_of_plain (mild : Mild σ) {α : Type} {request : Request α}
    (plain : request.nothing? = none) (unnamed : ∀ reply, request.namesTaken reply = false)
    (r : Recorder σ) :
    onState Recorder.sight (ask request r) =
      onState r.sight.withMemory (Store.serve request r.sight.memory) := by
  rcases ask_mild mild request r with h | ⟨reply, n, -, htaken, -⟩ | ⟨reply, hnothing, -⟩
  · exact h
  · rw [unnamed] at htaken
    cases htaken
  · rw [plain] at hnothing
    cases hnothing

/-- A look-up finds the row or nothing, and all is seen as before. -/
theorem ask_sight_of_find (mild : Mild σ) {ι : Type} (find : Request (Option ι))
    {found : Option ι} {r : Recorder σ} (lookup : find.nothing? = some none)
    (unnamed : ∀ reply, find.namesTaken reply = false)
    (hfind : r.memory.answer find = .ok (found, r.memory)) :
    ∃ reply t, ask find r = .ok reply t ∧ t.sight = r.sight ∧ (reply = found ∨ reply = none) := by
  rcases ask_mild mild find r with h | ⟨reply, n, -, htaken, -⟩ | ⟨reply, hnothing, h⟩
  · rw [serve_of_answer hfind] at h
    obtain ⟨t, ht, hsight⟩ := onState_eq_ok.mp h
    exact ⟨found, t, ht, hsight, .inl rfl⟩
  · rw [unnamed] at htaken
    cases htaken
  · rw [lookup] at hnothing
    cases hnothing
    obtain ⟨t, ht, hsight⟩ := onState_eq_ok.mp h
    exact ⟨none, t, ht, hsight, .inr rfl⟩

/-- However the key of a row comes to be reported as taken, the row is had as without faults. -/
theorem recover_sight (mild : Mild σ) {ι : Type} (taken : TakenKey) (raw : ι → Int)
    {insert : Request (Inserted ι)} {find : Request (Option ι)} {r : Recorder σ}
    {inserted : Inserted ι} {n : Memory} {found : Option ι}
    (hinsert : r.memory.answer insert = .ok (inserted, n))
    (hfind : r.memory.answer find = .ok (found, r.memory))
    (plain : insert.nothing? = none) (again : insert.method.looksAgain = true)
    (known : insert.namesTaken inserted = true →
      ∃ id, found = some id ∧ inserted = .existing id ∧ n = r.memory) :
    ∃ t, recover taken raw (ask insert) (ask find) r = .ok inserted t ∧
      t.sight = r.sight.withMemory n := by
  rcases ask_mild mild insert r with h | ⟨reply, k, hreply, htaken, h⟩ | ⟨reply, hnothing, -⟩
  · rw [serve_of_answer hinsert] at h
    obtain ⟨t, ht, hsight⟩ := onState_eq_ok.mp h
    unfold recover
    rw [ht]
    cases inserted <;> exact ⟨_, rfl, hsight⟩
  · -- The key is reported as taken, so the row is looked up once more, and it is found.
    cases hreply.symm.trans hinsert
    obtain ⟨id, rfl, rfl, rfl⟩ := known htaken
    obtain ⟨t, ht, hsight⟩ := onState_eq_error.mp h
    have hmemory : t.memory = r.memory := congrArg Sight.memory hsight
    have hagain := ask_sight find t
    rw [mild.truthful (ask_error ht) again find.method, hmemory] at hagain
    obtain ⟨u, hu, husight⟩ := onState_eq_ok.mp (hagain.trans (congrArg _ (serve_of_answer hfind)))
    rw [hsight] at husight
    unfold recover
    rw [ht]
    dsimp only [Faulty.plannedConflict]
    rw [bind_of_ok hu]
    exact ⟨_, rfl, husight⟩
  · rw [plain] at hnothing
    cases hnothing

/-! ## Rows -/

namespace Sight

/-- The row of a symbol, as it is had without faults. -/
def symbol (v : Sight) (row : NewSymbol) : Inserted SymbolId × Sight :=
  match v.symbols.find? row.key with
  | some id => (.existing id, { v with tally.symbolsReused := v.tally.symbolsReused + 1 })
  | none =>
    let (inserted, memory) := v.memory.insertSymbol row
    let symbols := v.symbols.insert row.key inserted.id
    match inserted with
    | .created _ =>
      (inserted, { v with memory, symbols, tally.symbolsCreated := v.tally.symbolsCreated + 1 })
    | .existing _ =>
      (inserted, { v with memory, symbols, tally.symbolsReused := v.tally.symbolsReused + 1 })

/-- The row of a field, as it is had without faults. -/
def field (v : Sight) (row : NewField) : Inserted FieldId × Sight :=
  match v.fields.find? row.key with
  | some id => (.existing id, { v with tally.fieldsReused := v.tally.fieldsReused + 1 })
  | none =>
    let (inserted, memory) := v.memory.insertField row
    let fields := v.fields.insert row.key inserted.id
    match inserted with
    | .created _ =>
      (inserted, { v with memory, fields, tally.fieldsCreated := v.tally.fieldsCreated + 1 })
    | .existing _ =>
      (inserted, { v with memory, fields, tally.fieldsReused := v.tally.fieldsReused + 1 })

/-- The row of an enumeration constant, as it is had without faults. -/
def enumerator (v : Sight) (owner : SymbolId) (name : String) (value : Int) : Sight :=
  match v.memory.insertEnumerator owner name value with
  | (.created _, memory) =>
    { v with memory, tally.enumeratorsCreated := v.tally.enumeratorsCreated + 1 }
  | (.existing _, memory) => v.withMemory memory

end Sight

theorem origin_sight (mild : Mild σ) (name : String) (littleEndian : Bool) (r : Recorder σ) :
    onState Recorder.sight (origin name littleEndian r) =
      .ok (r.sight.memory.insertOrigin name littleEndian).1.id
        (r.sight.withMemory (r.sight.memory.insertOrigin name littleEndian).2) := by
  obtain ⟨reply, t, ht, hsight, hreply⟩ :=
    ask_sight_of_find mild (.findOrigin name) (r := r) rfl (fun _ => rfl) rfl
  unfold origin
  rw [bind_of_ok ht, ← hsight]
  cases reply with
  | some id =>
    have hid : t.sight.memory.originIndex.find? name = some id := by
      rw [hsight]
      exact (hreply.resolve_right nofun).symm
    simp only [Memory.insertOrigin, hid]
    rfl
  | none =>
    cases hrow : t.sight.memory.insertOrigin name littleEndian with
    | mk inserted memory =>
      have hanswer : t.memory.answer (.insertOrigin name littleEndian) = .ok (inserted, memory) :=
        congrArg Except.ok hrow
      obtain ⟨u, hu, husight⟩ := recover_sight mild ⟨"origin", name⟩ OriginId.raw hanswer
        (show t.memory.answer (.findOrigin name) = _ from rfl) rfl rfl
        (Memory.insertOrigin_taken hrow)
      dsimp only
      rw [bind_of_ok hu]
      exact congrArg (EStateM.Result.ok _) husight

/-- The memo is asked, then the store, and either may not know of the row. -/
theorem findSymbol_sight (mild : Mild σ) (key : SymbolKey) (r : Recorder σ) :
    (∃ id, r.sight.symbols.find? key = some id ∧ findSymbol key r = .ok (some id) r) ∨
      r.sight.symbols.find? key = none ∧
        ((∃ id t, r.sight.memory.symbolIndex.find? key = some id ∧
          findSymbol key r = .ok (some id) t ∧
            t.sight = { r.sight with symbols := r.sight.symbols.insert key id }) ∨
        ∃ t, findSymbol key r = .ok none t ∧ t.sight = r.sight) := by
  show (∃ id, r.memo.symbols.find? key = some id ∧ _) ∨ r.memo.symbols.find? key = none ∧ _
  rw [findSymbol_eq]
  cases r.memo.symbols.find? key with
  | some id => exact .inl ⟨id, rfl, rfl⟩
  | none =>
    obtain ⟨reply, t, ht, hsight, hreply⟩ :=
      ask_sight_of_find mild (.findSymbol key) (r := r) rfl (fun _ => rfl) rfl
    refine .inr ⟨rfl, ?_⟩
    dsimp only
    rw [bind_of_ok ht]
    cases reply with
    | some id =>
      have hid : some id = r.memory.symbolIndex.find? key := hreply.resolve_right nofun
      refine .inl ⟨id, _, hid.symm, rfl, ?_⟩
      rw [← hsight]
      rfl
    | none => exact .inr ⟨t, rfl, hsight⟩

theorem symbol_sight (mild : Mild σ) (row : NewSymbol) (r : Recorder σ) :
    onState Recorder.sight (symbol row r) =
      .ok (r.sight.symbol row).1 (r.sight.symbol row).2 := by
  unfold symbol
  rcases findSymbol_sight mild row.key r with
    ⟨id, hmemo, h⟩ | ⟨hmemo, ⟨id, t, hid, h, hsight⟩ | ⟨t, h, hsight⟩⟩
  · rw [bind_of_ok h]
    simp only [Sight.symbol, hmemo]
    rfl
  · rw [bind_of_ok h]
    simp only [Sight.symbol, hmemo, Memory.insertSymbol_of_some hid, Inserted.id]
    show EStateM.Result.ok _
      { t.sight with tally.symbolsReused := t.sight.tally.symbolsReused + 1 } = _
    rw [hsight]
  · -- Neither knows of the row, so it is inserted, and it may be there all the same.
    rw [bind_of_ok h]
    simp only [Sight.symbol, hmemo]
    rw [← hsight]
    cases hrow : t.sight.memory.insertSymbol row with
    | mk inserted memory =>
      have hanswer : t.memory.answer (.insertSymbol row) = .ok (inserted, memory) :=
        congrArg Except.ok hrow
      obtain ⟨u, hu, husight⟩ := recover_sight mild ⟨"symbol", row.key.text⟩ SymbolId.raw hanswer
        (show t.memory.answer (.findSymbol row.key) = _ from rfl) rfl rfl
        (Memory.insertSymbol_taken hrow)
      rw [bind_of_ok hu]
      cases inserted with
      | created id =>
        show EStateM.Result.ok _ { u.sight with
          symbols := u.sight.symbols.insert row.key id
          tally.symbolsCreated := u.sight.tally.symbolsCreated + 1 } = _
        rw [husight]
        rfl
      | existing id =>
        show EStateM.Result.ok _ { u.sight with
          symbols := u.sight.symbols.insert row.key id
          tally.symbolsReused := u.sight.tally.symbolsReused + 1 } = _
        rw [husight]
        rfl

theorem findField_sight (mild : Mild σ) (key : FieldKey) (r : Recorder σ) :
    (∃ id, r.sight.fields.find? key = some id ∧ findField key r = .ok (some id) r) ∨
      r.sight.fields.find? key = none ∧
        ((∃ id t, r.sight.memory.fieldIndex.find? key = some id ∧
          findField key r = .ok (some id) t ∧
            t.sight = { r.sight with fields := r.sight.fields.insert key id }) ∨
        ∃ t, findField key r = .ok none t ∧ t.sight = r.sight) := by
  show (∃ id, r.memo.fields.find? key = some id ∧ _) ∨ r.memo.fields.find? key = none ∧ _
  rw [findField_eq]
  cases r.memo.fields.find? key with
  | some id => exact .inl ⟨id, rfl, rfl⟩
  | none =>
    obtain ⟨reply, t, ht, hsight, hreply⟩ :=
      ask_sight_of_find mild (.findField key) (r := r) rfl (fun _ => rfl) rfl
    refine .inr ⟨rfl, ?_⟩
    dsimp only
    rw [bind_of_ok ht]
    cases reply with
    | some id =>
      have hid : some id = r.memory.fieldIndex.find? key := hreply.resolve_right nofun
      refine .inl ⟨id, _, hid.symm, rfl, ?_⟩
      rw [← hsight]
      rfl
    | none => exact .inr ⟨t, rfl, hsight⟩

theorem field_sight (mild : Mild σ) (row : NewField) (r : Recorder σ) :
    onState Recorder.sight (field row r) =
      .ok (r.sight.field row).1 (r.sight.field row).2 := by
  unfold field
  rcases findField_sight mild row.key r with
    ⟨id, hmemo, h⟩ | ⟨hmemo, ⟨id, t, hid, h, hsight⟩ | ⟨t, h, hsight⟩⟩
  · rw [bind_of_ok h]
    simp only [Sight.field, hmemo]
    rfl
  · rw [bind_of_ok h]
    simp only [Sight.field, hmemo, Memory.insertField_of_some hid, Inserted.id]
    show EStateM.Result.ok _
      { t.sight with tally.fieldsReused := t.sight.tally.fieldsReused + 1 } = _
    rw [hsight]
  · -- Neither knows of the row, so it is inserted, and it may be there all the same.
    rw [bind_of_ok h]
    simp only [Sight.field, hmemo]
    rw [← hsight]
    cases hrow : t.sight.memory.insertField row with
    | mk inserted memory =>
      have hanswer : t.memory.answer (.insertField row) = .ok (inserted, memory) :=
        congrArg Except.ok hrow
      obtain ⟨u, hu, husight⟩ := recover_sight mild ⟨"field", row.key.text⟩ FieldId.raw hanswer
        (show t.memory.answer (.findField row.key) = _ from rfl) rfl rfl
        (Memory.insertField_taken hrow)
      rw [bind_of_ok hu]
      cases inserted with
      | created id =>
        show EStateM.Result.ok _ { u.sight with
          fields := u.sight.fields.insert row.key id
          tally.fieldsCreated := u.sight.tally.fieldsCreated + 1 } = _
        rw [husight]
        rfl
      | existing id =>
        show EStateM.Result.ok _ { u.sight with
          fields := u.sight.fields.insert row.key id
          tally.fieldsReused := u.sight.tally.fieldsReused + 1 } = _
        rw [husight]
        rfl

/-- A constant whose key is reported as taken is there, so it is passed over. -/
theorem enumerator_sight (mild : Mild σ) (owner : SymbolId) (name : String) (value : Int)
    (r : Recorder σ) :
    onState Recorder.sight (enumerator owner name value r) =
      .ok () (r.sight.enumerator owner name value) := by
  cases hrow : r.sight.memory.insertEnumerator owner name value with
  | mk inserted memory =>
    have hanswer : r.memory.answer (.insertEnumerator owner name value) = .ok (inserted, memory) :=
      congrArg Except.ok hrow
    unfold enumerator Sight.enumerator
    rw [hrow]
    rcases ask_mild mild (.insertEnumerator owner name value) r with
      h | ⟨reply, n, hreply, htaken, h⟩ | ⟨reply, hnothing, -⟩
    · rw [serve_of_answer hanswer] at h
      obtain ⟨t, ht, hsight⟩ := onState_eq_ok.mp h
      rw [ht]
      cases inserted with
      | created id =>
        show EStateM.Result.ok _
          { t.sight with tally.enumeratorsCreated := t.sight.tally.enumeratorsCreated + 1 } = _
        rw [hsight]
        rfl
      | existing id => exact congrArg (EStateM.Result.ok _) hsight
    · cases hreply.symm.trans hanswer
      obtain ⟨t, ht, hsight⟩ := onState_eq_error.mp h
      rw [ht]
      cases inserted with
      | created id => cases htaken
      | existing id => exact congrArg (EStateM.Result.ok _) hsight
    · cases hnothing

end LayoutGraph
