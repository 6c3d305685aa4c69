-- A store, in memory or in a database, whose planned faults are errors. A call
-- that fails leaves the rows as they were, and so does one that writes none. No
-- call takes a field away.
import LayoutGraph.Proofs.Keep
import LayoutGraph.Proofs.Store.Choice
import LayoutGraph.Store.Faulty
import LayoutGraph.Store.Traced

namespace LayoutGraph

open Chain

/-! ## Fields that stay -/

namespace Graph

/-- There is a row with the id of a field. -/
def HasField (g : Graph) (id : FieldId) : Prop := ∃ row ∈ g.fields, row.id = id

variable {g after : Graph} {id : FieldId}

theorem HasField.append {more : List Field} (h : g.HasField id)
    (hafter : after.fields = g.fields ++ more) : after.HasField id := by
  obtain ⟨row, hrow, hid⟩ := h
  exact ⟨row, hafter ▸ List.mem_append_left _ hrow, hid⟩

/-- A change of types leaves the ids alone. -/
theorem HasField.retyped {p : Field → Prop} [DecidablePred p] {type : SymbolId}
    (h : g.HasField id)
    (hafter : after.fields = g.fields.map fun f => if p f then { f with type } else f) :
    after.HasField id := by
  obtain ⟨row, hrow, hid⟩ := h
  refine ⟨_, hafter ▸ List.mem_map_of_mem hrow, ?_⟩
  split <;> exact hid

theorem HasField.any (h : g.HasField id) : (g.fields.any fun f => f.id = id) = true := by
  obtain ⟨row, hrow, hid⟩ := h
  exact List.any_eq_true.mpr ⟨row, hrow, decide_eq_true hid⟩

theorem hasField_of_find {row : Field} (h : g.fieldById? id = some row) : g.HasField row.id :=
  ⟨row, List.mem_of_find?_eq_some h, rfl⟩

end Graph

theorem Memory.hasField_answer {α : Type} {request : Request α} {reply : α} {m n : Memory}
    {id : FieldId} (h : m.answer request = .ok (reply, n)) (hid : m.graph.HasField id) :
    n.graph.HasField id := by
  cases request with
  | insertOrigin | insertSymbol | insertDimension | insertEnumerator =>
    simp only [answer, Except.ok.injEq, insertOrigin, insertSymbol, insertDimension,
      insertEnumerator] at h
    split at h <;> cases h <;> exact hid
  | insertField row =>
    simp only [answer, Except.ok.injEq, insertField] at h
    split at h <;> cases h
    · exact hid
    · exact hid.append rfl
  | allocateList =>
    simp only [answer, allocateList, ListCounter.next] at h
    split at h <;> cases h
    exact hid
  | retargetFields =>
    cases h
    exact hid.retyped rfl
  | setFieldType =>
    cases h
    exact hid.retyped rfl
  | _ =>
    cases h
    exact hid

theorem Database.hasField_answer {α : Type} {request : Request α} {reply : α} {db next : Database}
    {id : FieldId} (h : db.answer request = .ok (reply, next)) (hid : db.graph.HasField id) :
    next.graph.HasField id := by
  cases request with
  | insertOrigin =>
    obtain ⟨_, -, -, rfl⟩ | ⟨-, _, -, rfl⟩ := insertOrigin_ok h <;> exact hid
  | insertSymbol =>
    obtain ⟨-, ⟨_, -, -, rfl⟩ | ⟨-, _, -, rfl⟩⟩ := insertSymbol_ok h <;> exact hid
  | insertField =>
    obtain ⟨_, -, -, rfl⟩ | ⟨-, _, -, rfl⟩ := insertField_ok h
    · exact hid
    · exact hid.append rfl
  | insertDimension =>
    obtain ⟨_, _, rfl⟩ := insertDimension_ok h
    exact hid
  | insertEnumerator =>
    obtain ⟨-, ⟨_, -, -, rfl⟩ | ⟨-, _, -, rfl⟩⟩ := insertEnumerator_ok h <;> exact hid
  | allocateList =>
    obtain ⟨_, rfl⟩ := allocateList_ok h
    exact hid
  | retargetFields =>
    cases retargetFields_ok h
    exact hid.retyped rfl
  | setFieldType =>
    cases setFieldType_ok h
    exact hid.retyped rfl
  | findSymbol key =>
    simp only [answer] at h
    cases hfound : db.findSymbol key <;> rw [hfound] at h <;> cases h
    exact hid
  | _ =>
    cases h
    exact hid

/-! ## Calls that write nothing -/

theorem Memory.graph_answer {α : Type} {request : Request α} {reply : α} {m n : Memory}
    (h : m.answer request = .ok (reply, n)) (reads : request.method.writes = false) :
    n.graph = m.graph := by
  cases request with
  | insertOrigin | insertSymbol | insertField | insertDimension | insertEnumerator => cases reads
  | retargetFields | setFieldType => cases reads
  | allocateList =>
    simp only [answer, allocateList, ListCounter.next] at h
    split at h <;> cases h
    rfl
  | _ =>
    cases h
    rfl

theorem Database.graph_answer {α : Type} {request : Request α} {reply : α} {db next : Database}
    (h : db.answer request = .ok (reply, next)) (reads : request.method.writes = false) :
    next.graph = db.graph := by
  cases request with
  | insertOrigin | insertSymbol | insertField | insertDimension | insertEnumerator => cases reads
  | retargetFields | setFieldType => cases reads
  | allocateList =>
    obtain ⟨_, rfl⟩ := allocateList_ok h
    rfl
  | findSymbol key =>
    simp only [answer] at h
    cases hfound : db.findSymbol key <;> rw [hfound] at h <;> cases h
    rfl
  | _ =>
    cases h
    rfl

/-! ## The store behind the plans -/

namespace AnyStore

variable {α : Type} {request : Request α} {s t : AnyStore}

/-- A request that fails changes nothing. -/
theorem serve_error {e : Failure} (h : Store.serve request s = .error e t) : t = s := by
  cases s with
  | memory m =>
    simp only [Store.serve] at h
    split at h <;> cases h
    rename_i heq
    rw [(ofStep_error_iff.mp heq).2]
  | database db =>
    obtain ⟨n, hn, rfl⟩ := serve_database_error.mp h
    rw [(ofStep_error_iff.mp hn).2]

theorem serve_fieldById (s : AnyStore) (id : FieldId) :
    Store.serve (.fieldById id) s = .ok (s.graph.fieldById? id) s := by
  cases s <;> rfl

/-- No request takes a field away. -/
theorem hasField_served {id : FieldId} {reply : α} (h : Store.serve request s = .ok reply t)
    (hid : s.graph.HasField id) : t.graph.HasField id := by
  cases s with
  | memory m =>
    obtain ⟨n, hn, rfl⟩ := serve_memory_ok.mp h
    exact Memory.hasField_answer (ofStep_ok_iff.mp hn) hid
  | database db =>
    obtain ⟨n, hn, rfl⟩ := serve_database_ok.mp h
    exact Database.hasField_answer (ofStep_ok_iff.mp hn) hid

/-- A request that writes nothing leaves the rows alone. -/
theorem graph_served {reply : α} (h : Store.serve request s = .ok reply t)
    (reads : request.method.writes = false) : t.graph = s.graph := by
  cases s with
  | memory m =>
    obtain ⟨n, hn, rfl⟩ := serve_memory_ok.mp h
    exact Memory.graph_answer (ofStep_ok_iff.mp hn) reads
  | database db =>
    obtain ⟨n, hn, rfl⟩ := serve_database_ok.mp h
    exact Database.graph_answer (ofStep_ok_iff.mp hn) reads

/-- A field that is there is found where its type is set. -/
theorem setFieldType_found {id : FieldId} {type : SymbolId} {found : Bool}
    (h : Store.serve (.setFieldType id type) s = .ok found t) (hid : s.graph.HasField id) :
    found = true := by
  cases s with
  | memory m =>
    obtain ⟨n, hn, rfl⟩ := serve_memory_ok.mp h
    cases ofStep_ok_iff.mp hn
    exact hid.any
  | database db =>
    obtain ⟨n, hn, rfl⟩ := serve_database_ok.mp h
    have hn : db.setFieldType id type = .ok (found, n) := ofStep_ok_iff.mp hn
    unfold Database.setFieldType at hn
    obtain ⟨-, -, hn⟩ := Database.bind_eq_ok.mp hn
    dsimp only at hn
    split at hn
    · obtain ⟨-, -, hn⟩ := Database.bind_eq_ok.mp hn
      cases hn
      exact hid.any
    · cases hn
      exact hid.any

end AnyStore

/-! ## Planned errors -/

namespace Faulty

/-- Every planned fault is an error. -/
def ErrorsOnly {σ : Type} (f : Faulty σ) : Prop := ∀ p ∈ f.plans, p.2.mode = .error

theorem ErrorsOnly.strike {σ : Type} {f : Faulty σ} (h : f.ErrorsOnly) (method : Method) :
    (∀ mode, (f.strike method).1 = some mode → mode = .error) ∧
      (f.strike method).2.ErrorsOnly ∧ (f.strike method).2.store = f.store := by
  unfold Faulty.strike
  cases hplan : f.plan? method with
  | none => exact ⟨nofun, h, rfl⟩
  | some plan =>
    obtain ⟨pre, post, hsplit, -⟩ := List.lookup_eq_some_iff.mp hplan
    have hmode : plan.mode = .error :=
      h (method, plan) (hsplit ▸ List.mem_append_right _ List.mem_cons_self)
    have hlater : plan.step.2.mode = .error := by
      rw [← hmode]
      unfold FaultPlan.step
      split <;> rfl
    refine ⟨fun mode hstruck => ?_, fun p hp => ?_, rfl⟩
    · dsimp only at hstruck
      split at hstruck <;> cases hstruck
      exact hmode
    · rcases List.mem_cons.mp hp with rfl | hp
      · exact hlater
      · exact h p (List.mem_filter.mp hp).1

/-- What a call does: it is served by the store behind the plans, or it fails and leaves that store
alone. No call reports a taken key. -/
theorem ErrorsOnly.serve {f : Faulty AnyStore} (h : f.ErrorsOnly) {α : Type}
    (request : Request α) :
    Ends
      (fun reply t => t.ErrorsOnly ∧ Store.serve request f.store = .ok reply t.store)
      (fun e t => t.ErrorsOnly ∧ t.store = f.store ∧ ∀ entity key, e ≠ .conflict entity key)
      (Store.serve request f) := by
  obtain ⟨hmode, herrors, hstore⟩ := h.strike request.method
  show Ends _ _ (Faulty.serve request f)
  unfold Faulty.serve
  generalize f.strike request.method = struck at hmode herrors hstore
  obtain ⟨mode, after⟩ := struck
  dsimp only at hmode herrors hstore ⊢
  cases mode with
  | none =>
    dsimp only [passOn]
    rw [hstore]
    cases hserve : Store.serve request f.store with
    | ok reply t => exact ⟨herrors, rfl⟩
    | error e t =>
      refine ⟨herrors, AnyStore.serve_error hserve, ?_⟩
      rintro entity key rfl
      exact Faultless.noConflict hserve
  | some mode =>
    cases hmode mode rfl
    exact ⟨herrors, hstore, nofun⟩

end Faulty

end LayoutGraph
