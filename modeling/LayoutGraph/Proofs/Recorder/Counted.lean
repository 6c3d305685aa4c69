-- What a pass counts. Each insert that gives a new row is counted once, and
-- nothing else is counted as new. So at every move, however it ends, the rows
-- that the tables have gained are those that were counted.
import LayoutGraph.Proofs.Growth

namespace LayoutGraph

open Chain Recording

/-! ## Counts -/

/-- Numbers of symbols, fields and enumerators. -/
structure Counts where
  symbols : Nat := 0
  fields : Nat := 0
  enumerators : Nat := 0

namespace Counts

instance : Add Counts where
  add a b := ⟨a.symbols + b.symbols, a.fields + b.fields, a.enumerators + b.enumerators⟩

theorem add_none (a : Counts) : a + {} = a := rfl

theorem add_assoc (a b c : Counts) : a + b + c = a + (b + c) := by
  show (⟨_, _, _⟩ : Counts) = ⟨_, _, _⟩
  congr 1 <;> exact Nat.add_assoc _ _ _

end Counts

def Graph.counts (g : Graph) : Counts := ⟨g.symbols.length, g.fields.length, g.enumerators.length⟩

/-- The rows that were counted as new. -/
def Tally.created (t : Tally) : Counts := ⟨t.symbolsCreated, t.fieldsCreated, t.enumeratorsCreated⟩

/-- The counts of an insert, which are those of its row if the row is new. -/
def Inserted.counts {ι : Type} (inserted : Inserted ι) (row : Counts) : Counts :=
  if inserted.wasCreated then row else {}

/-! ## Inserts -/

namespace Memory

theorem insertOrigin_counts (m : Memory) (name : String) (littleEndian : Bool) :
    (m.insertOrigin name littleEndian).2.graph.counts = m.graph.counts := by
  unfold insertOrigin
  split <;> rfl

theorem insertSymbol_counts (m : Memory) (row : NewSymbol) :
    (m.insertSymbol row).2.graph.counts =
      m.graph.counts + (m.insertSymbol row).1.counts { symbols := 1 } := by
  unfold insertSymbol
  split
  · rfl
  · show (⟨(m.graph.symbols ++ [_]).length, _, _⟩ : Counts) = _
    rw [List.length_append]
    rfl

theorem insertField_counts (m : Memory) (row : NewField) :
    (m.insertField row).2.graph.counts =
      m.graph.counts + (m.insertField row).1.counts { fields := 1 } := by
  unfold insertField
  split
  · rfl
  · show (⟨_, (m.graph.fields ++ [_]).length, _⟩ : Counts) = _
    rw [List.length_append]
    rfl

theorem insertEnumerator_counts (m : Memory) (symbol : SymbolId) (name : String) (value : Int) :
    (m.insertEnumerator symbol name value).2.graph.counts =
      m.graph.counts + (m.insertEnumerator symbol name value).1.counts { enumerators := 1 } := by
  unfold insertEnumerator
  split
  · rfl
  · show (⟨_, _, (m.graph.enumerators ++ [_]).length⟩ : Counts) = _
    rw [List.length_append]
    rfl

theorem insertDimension_counts (m : Memory) (list : ListId) (order extent : Nat) :
    (m.insertDimension list order extent).2.graph.counts = m.graph.counts := by
  unfold insertDimension
  split <;> rfl

end Memory

/-! ## The counters of a move -/

variable {σ : Type} [Store σ]

/-- So many rows have been counted as new. -/
def Counted (counts : Counts) (r : Recorder σ) : Prop := r.memo.tally.created = counts

variable {counts : Counts}

theorem keeps_counted_ask {α : Type} (request : Request α) :
    Keeps (Counted counts) (ask request : Recording σ α) := by
  intro r hr
  unfold ask
  split <;> exact hr

theorem keeps_counted_findSymbol (key : SymbolKey) :
    Keeps (Counted counts) (findSymbol key : Recording σ _) :=
  keeps_findSymbol (keeps_counted_ask _) fun _ => keeps_modify fun _ h => h

theorem keeps_counted_findField (key : FieldKey) :
    Keeps (Counted counts) (findField key : Recording σ _) :=
  keeps_findField (keeps_counted_ask _) fun _ => keeps_modify fun _ h => h

/-- A row that is recovered behind a taken key is not counted as new. -/
theorem keeps_counted_recover {ι : Type} (taken : TakenKey) (raw : ι → Int)
    (insert : Request (Inserted ι)) (find : Request (Option ι)) :
    Keeps (Counted counts) (recover taken raw (ask insert) (ask find) : Recording σ _) :=
  keeps_recover taken raw (keeps_modify fun _ h => h) (fun _ => keeps_modify fun _ h => h)
    (keeps_counted_ask insert) (keeps_counted_ask find)

theorem symbol_counted {r : Recorder σ} (row : NewSymbol) (hr : Counted counts r) :
    Ends (fun inserted => Counted (counts + inserted.counts { symbols := 1 }))
      (fun _ => Counted counts) (symbol row r) := by
  unfold symbol
  refine ends_bind (((keeps_counted_findSymbol row.key).ends hr).mono (fun found t h => ?_)
    fun _ _ h => h)
  cases found with
  | some id => exact h
  | none =>
    refine ends_bind (((keeps_counted_recover _ _ _ _).ends h).mono (fun inserted u h => ?_)
      fun _ _ h => h)
    subst h
    cases inserted <;> rfl

theorem field_counted {r : Recorder σ} (row : NewField) (hr : Counted counts r) :
    Ends (fun inserted => Counted (counts + inserted.counts { fields := 1 }))
      (fun _ => Counted counts) (field row r) := by
  unfold field
  refine ends_bind (((keeps_counted_findField row.key).ends hr).mono (fun found t h => ?_)
    fun _ _ h => h)
  cases found with
  | some id => exact h
  | none =>
    refine ends_bind (((keeps_counted_recover _ _ _ _).ends h).mono (fun inserted u h => ?_)
      fun _ _ h => h)
    subst h
    cases inserted <;> rfl

/-! ## Rows and counters -/

variable [Unreliable σ]

/-- The rows that were there at the start and those that were counted as new are all the rows. -/
def Balanced (start : Counts) (r : Recorder σ) : Prop :=
  r.memory.graph.counts = start + r.memo.tally.created

theorem Balanced.add {start more : Counts} {r t : Recorder σ} (h : Balanced start r)
    (rows : t.memory.graph.counts = r.memory.graph.counts + more)
    (counted : Counted (r.memo.tally.created + more) t) : Balanced start t := by
  unfold Balanced Counted at *
  rw [rows, h, counted, Counts.add_assoc]

theorem Balanced.congr {start : Counts} {r t : Recorder σ} (h : Balanced start r)
    (rows : t.memory.graph.counts = r.memory.graph.counts)
    (counted : Counted r.memo.tally.created t) : Balanced start t := by
  unfold Balanced Counted at *
  rw [rows, h, counted]

theorem Balanced.of_same {start : Counts} {r t : Recorder σ} (h : Balanced start r)
    (hmemo : t.memo = r.memo) (hmemory : t.memory = r.memory) : Balanced start t :=
  h.congr (congrArg (fun m : Memory => m.graph.counts) hmemory)
    (congrArg (fun memo : Memo => memo.tally.created) hmemo)

/-- The move keeps rows and counters in balance, however it ends. -/
def Balances {α : Type} (x : Recording σ α) : Prop := ∀ start r, Recalls r → Balanced start r →
  Ends (fun _ t => Recalls t ∧ Balanced start t) (fun _ t => Balanced start t) (x r)

variable {α β : Type}

theorem balances_pure (a : α) : Balances (pure a : Recording σ α) := fun _ _ hr h => ⟨hr, h⟩

theorem balances_throw (e : Failure) : Balances (throw e : Recording σ α) := fun _ _ _ h => h

theorem balances_note (event : Log.Event) : Balances (note event : Recording σ Unit) :=
  fun _ _ hr h => ⟨hr.congr rfl rfl rfl, h⟩

theorem balances_bind {x : Recording σ α} {f : α → Recording σ β} (hx : Balances x)
    (hf : ∀ a, Balances (f a)) : Balances (x >>= f) := fun start r hr h =>
  ends_bind ((hx start r hr h).mono (fun a t ht => hf a start t ht.1 ht.2) fun _ _ ht => ht)

theorem balances_forM {γ : Type} {f : γ → Recording σ PUnit} (h : ∀ c, Balances (f c))
    (l : List γ) : Balances (l.forM f) := by
  induction l with
  | nil => exact balances_pure PUnit.unit
  | cons c rest ih => exact balances_bind (h c) fun _ => ih

theorem balances_symbol (row : NewSymbol) : Balances (symbol row : Recording σ _) := by
  intro start r hr h
  have hcounted := symbol_counted row (rfl : Counted r.memo.tally.created r)
  refine ((symbol_struck hr row).and hcounted).mono (fun inserted t ht => ?_) fun _ t ht => ?_
  · obtain ⟨⟨hrecalls, -, hplain⟩, hcounted⟩ := ht
    refine ⟨hrecalls, h.add ?_ hcounted⟩
    have hrows := r.memory.insertSymbol_counts row
    rw [← hplain] at hrows
    exact hrows
  · exact h.congr (congrArg (fun m : Memory => m.graph.counts) ht.1) ht.2

theorem balances_field (row : NewField) : Balances (field row : Recording σ _) := by
  intro start r hr h
  have hcounted := field_counted row (rfl : Counted r.memo.tally.created r)
  refine ((field_struck hr row).and hcounted).mono (fun inserted t ht => ?_) fun _ t ht => ?_
  · obtain ⟨⟨hrecalls, hplain⟩, hcounted⟩ := ht
    refine ⟨hrecalls, h.add ?_ hcounted⟩
    have hrows := r.memory.insertField_counts row
    rw [← hplain] at hrows
    exact hrows
  · exact h.congr (congrArg (fun m : Memory => m.graph.counts) ht.1) ht.2

/-- A request that answers with neither symbol, field nor enumerator counts nothing. -/
theorem balances_ask {request : Request α} (plain : request.nothing? = none)
    (rows : ∀ (m n : Memory) reply, m.answer request = .ok (reply, n) →
      n.graph.counts = m.graph.counts) : Balances (ask request : Recording σ α) := by
  intro start r hr h
  refine (ask_served request plain r).mono (fun reply t ht => ?_) fun _ t ht => ?_
  · obtain ⟨hmemo, hanswer⟩ := ht
    refine ⟨hr.answer hanswer (congrArg _ hmemo) (congrArg _ hmemo), h.congr (rows _ _ _ hanswer) ?_⟩
    exact congrArg (fun memo : Memo => memo.tally.created) hmemo
  · exact h.of_same ht.1 ht.2.1

theorem balances_enumerator (symbol : SymbolId) (name : String) (value : Int) :
    Balances (enumerator symbol name value : Recording σ Unit) := by
  intro start r hr h
  have hask := ask_served (.insertEnumerator symbol name value) rfl r
  have hrows := r.memory.insertEnumerator_counts symbol name value
  unfold enumerator
  split <;> rename_i heq <;> rw [heq] at hask
  · obtain ⟨hmemo, hanswer⟩ := hask
    have ht := hr.answer hanswer (congrArg _ hmemo) (congrArg _ hmemo)
    rw [Except.ok.inj hanswer] at hrows
    refine ⟨ht.congr rfl rfl rfl, h.add hrows ?_⟩
    rw [← hmemo]
    rfl
  · obtain ⟨hmemo, hanswer⟩ := hask
    rw [Except.ok.inj hanswer] at hrows
    exact ⟨hr.answer hanswer (congrArg _ hmemo) (congrArg _ hmemo),
      h.congr hrows (congrArg (fun memo : Memo => memo.tally.created) hmemo)⟩
  · obtain ⟨hmemo, hmemory, -⟩ := hask
    have ht := hr.congr hmemory (congrArg Memo.symbols hmemo) (congrArg Memo.fields hmemo)
    have hbalanced := h.of_same hmemo hmemory
    exact ⟨ht.congr rfl rfl rfl, hbalanced⟩
  · exact h.of_same hask.1 hask.2.1

theorem balances_origin (name : String) (littleEndian : Bool) :
    Balances (origin name littleEndian : Recording σ _) := by
  intro start r hr h
  have counted : Keeps (Counted r.memo.tally.created)
      (origin name littleEndian : Recording σ _) := by
    unfold origin
    refine keeps_bind (keeps_counted_ask _) fun found => ?_
    split
    · exact keeps_bind (keeps_modify fun _ h => h) fun _ => keeps_pure _
    · exact keeps_bind (keeps_counted_recover _ _ _ _) fun _ => keeps_pure _
  refine ((origin_struck hr name littleEndian).and (counted.ends rfl)).mono (fun id t ht => ?_)
    fun _ t ht => ?_
  · obtain ⟨⟨hrecalls, -, hmemory⟩, hcounted⟩ := ht
    refine ⟨hrecalls, h.congr ?_ hcounted⟩
    rw [hmemory]
    exact r.memory.insertOrigin_counts name littleEndian
  · exact h.congr (congrArg (fun m : Memory => m.graph.counts) ht.1) ht.2

/-! ## Steps -/

theorem balances_symbolId (setting : Setting) (key : SymbolKey) :
    Balances (symbolId setting key : Recording σ _) := by
  intro start r hr h
  rw [symbolId_eq]
  split
  · exact ⟨hr, h⟩
  · exact balances_bind (balances_symbol _) (fun _ => balances_pure _) start r hr h

theorem balances_listFor (extents : List Nat) :
    Balances (listFor extents : Recording σ _) := by
  unfold listFor
  split
  · exact balances_pure none
  · refine balances_bind (balances_ask rfl fun m n reply hanswer => ?_) fun _ => balances_pure _
    simp only [Memory.answer, Memory.allocateList, ListCounter.next] at hanswer
    split at hanswer <;> cases hanswer
    rfl

theorem balances_writeDimensions (list : ListId) (extents : List Nat) :
    Balances (writeDimensions list extents : Recording σ Unit) := by
  refine balances_forM (fun axis => ?_) _
  refine balances_bind (balances_ask rfl fun m n reply hanswer => ?_) fun _ => balances_pure _
  rw [eq_snd_of_ok hanswer]
  exact m.insertDimension_counts list axis.2 axis.1

theorem balances_writeStep (setting : Setting) (step : Survey.Step) :
    Balances (writeStep setting step : Recording σ Unit) := by
  cases step with
  | visit entry name => exact balances_note _
  | symbol key => exact balances_bind (balances_symbol _) fun _ => balances_pure _
  | field step =>
    refine balances_bind (balances_symbolId setting step.owner) fun owner => ?_
    refine balances_bind (balances_symbolId setting step.type) fun type => ?_
    refine balances_bind (balances_listFor step.extents) fun dimensions => ?_
    refine balances_bind (balances_field _) fun inserted => ?_
    split
    · exact balances_writeDimensions _ _
    · exact balances_pure _
  | enumerator key constant =>
    exact balances_bind (balances_symbolId setting key) fun id => balances_enumerator id _ _

theorem balances_writeResolution (setting : Setting) (one : Survey.Resolution) :
    Balances (Pass.writeResolution setting one : Recording σ Unit) := by
  unfold Pass.writeResolution
  refine balances_bind (balances_forM (balances_writeStep setting) _) fun _ => ?_
  split
  · exact balances_throw _
  · exact balances_pure _

/-! ## Passes -/

theorem writeResolutions_balanced (name : String) (setting : Setting) {start : Counts}
    {r : Recorder σ} (hr : Recalls r) (h : Balanced start r) (rs : List Survey.Resolution) :
    Ends (fun _ t => Balanced start t) (fun _ t => Balanced start t)
      (Pass.writeResolutions name setting rs r) := by
  induction rs generalizing r with
  | nil => exact h
  | cons one rest ih =>
    have hone := balances_writeResolution setting one start r hr h
    unfold Pass.writeResolutions
    split <;> rename_i heq <;> rw [heq] at hone
    · exact ih hone.1 hone.2
    · split <;> exact hone

theorem keeps_balanced_commit {start : Counts} :
    Keeps (Balanced start) (ask .commit : Recording σ Unit) := by
  intro r h
  refine Ends.left ((ask_served .commit rfl r).mono (fun _ t ht => ?_) fun _ t ht => ?_)
  · exact h.of_same ht.1 (eq_snd_of_ok ht.2)
  · exact h.of_same ht.1 ht.2.1

/-- A pass leaves rows and counters in balance, however it ends. -/
theorem write_balanced (source : Source) {start : Counts} {r : Recorder σ} (hr : Recalls r)
    (h : Balanced start r) : Balanced start (left (Pass.write source r)) := by
  refine Ends.left (P := Balanced start) ?_
  unfold Pass.write
  refine ends_bind ((balances_origin _ _ start r hr h).mono (fun id r1 h1 => ?_) fun _ _ h => h)
  refine ends_bind ((balances_note _ start r1 h1.1 h1.2).mono (fun _ r2 h2 => ?_) fun _ _ h => h)
  refine ends_bind ((writeResolutions_balanced _ _ h2.1 h2.2 _).mono (fun failure r3 h3 => ?_)
    fun _ _ h => h)
  refine (keeps_bind keeps_balanced_commit fun _ => ?_).ends h3
  cases failure with
  | some e => exact keeps_throw e
  | none => exact keeps_bind keeps_get fun _ => keeps_modify fun _ h => h

end LayoutGraph
