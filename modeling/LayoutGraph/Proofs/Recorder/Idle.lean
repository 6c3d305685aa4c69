-- Writing what is there already. Where a store without faults holds the rows
-- of a step, writing the step changes no row and counts nothing as new. Only
-- the list counter can move: a list is taken before its field is looked up.
import LayoutGraph.Proofs.Recorder.Agreement
import LayoutGraph.Proofs.Survey.Yield

namespace LayoutGraph

open Chain Recording

/-! ## Work without effect -/

/-- The counters of what is new stand where they stood. -/
structure NothingNew (before after : Tally) : Prop where
  symbols : after.symbolsCreated = before.symbolsCreated
  fields : after.fieldsCreated = before.fieldsCreated
  enumerators : after.enumeratorsCreated = before.enumeratorsCreated
  conflicts : after.conflictsRecovered = before.conflictsRecovered

theorem NothingNew.refl (t : Tally) : NothingNew t t := ⟨rfl, rfl, rfl, rfl⟩

theorem NothingNew.trans {a b c : Tally} (h : NothingNew a b) (h' : NothingNew b c) :
    NothingNew a c :=
  ⟨h'.symbols.trans h.symbols, h'.fields.trans h.fields, h'.enumerators.trans h.enumerators,
    h'.conflicts.trans h.conflicts⟩

variable {σ : Type} [Store σ] [Faultless σ]

/-- From `r` to `t` nothing happened, except that `lists` lists were taken. -/
structure Idle (lists : Nat) (r t : Recorder σ) : Prop where
  graph : Faultless.graph t.store = Faultless.graph r.store
  lists : (Faultless.lists t.store).last = (Faultless.lists r.store).last + lists
  outlasts : Outlasts r.store t.store
  agrees : Agrees t
  tally : NothingNew r.memo.tally t.memo.tally

theorem Idle.refl {r : Recorder σ} (h : Agrees r) : Idle 0 r r :=
  ⟨rfl, by simp, fun _ h => h, h, .refl _⟩

theorem Idle.trans {j k : Nat} {r t u : Recorder σ} (h : Idle j r t) (h' : Idle k t u) :
    Idle (j + k) r u :=
  ⟨h'.graph.trans h.graph, by rw [h'.lists, h.lists]; push_cast; omega,
    h.outlasts.trans h'.outlasts, h'.agrees, h.tally.trans h'.tally⟩

/-- The store is as it was, and the memo agrees with it. -/
theorem Idle.of_store_eq {r t : Recorder σ} (hstore : t.store = r.store) (hagrees : Agrees t)
    (htally : NothingNew r.memo.tally t.memo.tally) : Idle 0 r t :=
  ⟨by rw [hstore], by rw [hstore]; simp, fun _ h => hstore ▸ h, hagrees, htally⟩

/-- The counters of what is reused and the log may move too. -/
theorem Idle.then_counted {k : Nat} {r t u : Recorder σ} (h : Idle k r t)
    (hstore : u.store = t.store) (hsymbols : u.memo.symbols = t.memo.symbols)
    (hfields : u.memo.fields = t.memo.fields) (htally : NothingNew t.memo.tally u.memo.tally) :
    Idle k r u :=
  h.trans (.of_store_eq hstore (h.agrees.congr hstore hsymbols hfields) htally)

theorem Idle.withLog {k : Nat} {r t : Recorder σ} (h : Idle k r t) (log : Array Log.Event) :
    Idle k r (t.withLog log) :=
  h.then_counted rfl rfl rfl (.refl _)

/-! ## Look-ups -/

omit [Faultless σ] in
/-- A key has one row. -/
theorem symbol_unique {s : σ} {key : SymbolKey} {a b : SymbolId} (ha : Holds s (.symbol key a))
    (hb : Holds s (.symbol key b)) : a = b := by
  cases ha.symm.trans hb
  rfl

omit [Faultless σ] in
theorem field_unique {s : σ} {key : FieldKey} {a b : FieldId} (ha : Holds s (.field key a))
    (hb : Holds s (.field key b)) : a = b := by
  cases ha.symm.trans hb
  rfl

theorem findSymbol_idle {key : SymbolKey} {id : SymbolId} {r : Recorder σ} (hr : Agrees r)
    (hid : Holds r.store (.symbol key id)) :
    ∃ t, findSymbol key r = .ok (some id) t ∧ Idle 0 r t := by
  rw [findSymbol_eq]
  cases hmemo : r.memo.symbols.find? key with
  | some found =>
    cases symbol_unique (hr.symbols key found hmemo) hid
    exact ⟨r, rfl, .refl hr⟩
  | none =>
    refine ⟨_, bind_of_ok (ask_of_ok hid), ?_⟩
    exact .of_store_eq rfl (hr.insertSymbol hid) (.refl _)

theorem findField_idle {key : FieldKey} {id : FieldId} {r : Recorder σ} (hr : Agrees r)
    (hid : Holds r.store (.field key id)) :
    ∃ t, findField key r = .ok (some id) t ∧ Idle 0 r t := by
  rw [findField_eq]
  cases hmemo : r.memo.fields.find? key with
  | some found =>
    cases field_unique (hr.fields key found hmemo) hid
    exact ⟨r, rfl, .refl hr⟩
  | none =>
    refine ⟨_, bind_of_ok (ask_of_ok hid), ?_⟩
    exact .of_store_eq rfl (hr.insertField hid) (.refl _)

/-! ## Rows -/

theorem origin_idle (littleEndian : Bool) {name : String} {id : OriginId} {r : Recorder σ}
    (hr : Agrees r) (hid : Holds r.store (.origin name id)) :
    ∃ t, origin name littleEndian r = .ok id t ∧ Idle 0 r t := by
  unfold origin
  rw [bind_of_ok (ask_of_ok hid)]
  exact ⟨_, rfl, .of_store_eq rfl (hr.congr rfl rfl rfl) (.refl _)⟩

theorem symbol_idle (row : NewSymbol) {id : SymbolId} {r : Recorder σ} (hr : Agrees r)
    (hid : Holds r.store (.symbol row.key id)) :
    ∃ t, symbol row r = .ok (.existing id) t ∧ Idle 0 r t := by
  obtain ⟨m, hfind, hm⟩ := findSymbol_idle hr hid
  unfold symbol
  rw [bind_of_ok hfind]
  refine ⟨_, rfl, ?_⟩
  exact hm.then_counted rfl rfl rfl ⟨rfl, rfl, rfl, rfl⟩

theorem field_idle (row : NewField) {id : FieldId} {r : Recorder σ} (hr : Agrees r)
    (hid : Holds r.store (.field row.key id)) :
    ∃ t, field row r = .ok (.existing id) t ∧ Idle 0 r t := by
  obtain ⟨m, hfind, hm⟩ := findField_idle hr hid
  unfold field
  rw [bind_of_ok hfind]
  refine ⟨_, rfl, ?_⟩
  exact hm.then_counted rfl rfl rfl ⟨rfl, rfl, rfl, rfl⟩

theorem enumerator_idle (value : Int) {owner : SymbolId} {name : String} {id : EnumeratorId}
    {r : Recorder σ} (hr : Agrees r) (hid : Holds r.store (.enumerator ⟨owner, name⟩ id)) :
    ∃ t, enumerator owner name value r = .ok () t ∧ Idle 0 r t := by
  have hask := ask_of_ok (r := r) (hid value)
  refine ⟨r, ?_, .refl hr⟩
  unfold enumerator
  rw [hask]

theorem symbolId_idle (setting : Setting) {key : SymbolKey} {id : SymbolId} {r : Recorder σ}
    (hr : Agrees r) (hid : Holds r.store (.symbol key id)) :
    ∃ t, symbolId setting key r = .ok id t ∧ Idle 0 r t := by
  rw [symbolId_eq]
  cases hmemo : r.memo.symbols.find? key with
  | some found =>
    cases symbol_unique (hr.symbols key found hmemo) hid
    exact ⟨r, rfl, .refl hr⟩
  | none =>
    obtain ⟨t, hsymbol, ht⟩ :=
      symbol_idle ⟨setting.origin, key.name, key.byteSize⟩ hr hid
    exact ⟨t, bind_of_ok hsymbol, ht⟩

/-- The counter has a list to give. -/
theorem listFor_idle (extents : List Nat) {r : Recorder σ} (hr : Agrees r)
    (room : (Faultless.lists r.store).last + (if extents.isEmpty then 0 else 1 : Nat) ≤
      ListCounter.greatest) :
    ∃ list t, listFor extents r = .ok list t ∧ Idle (if extents.isEmpty then 0 else 1) r t := by
  unfold listFor
  split
  · exact ⟨none, r, rfl, .refl hr⟩
  · rename_i hextents
    rw [if_neg hextents] at room
    obtain ⟨list, s, hserve, hgraph, hlists⟩ := Faultless.allocate r.store (by omega)
    have hask := ask_of_ok hserve
    refine ⟨some list, _, bind_of_ok hask, hgraph, hlists, ?_, hr.ask hask, .refl _⟩
    exact outlasts_of_ok (fun held => (steady_holds held).ask _) hask

/-! ## Steps -/

theorem writeField_idle (setting : Setting) {step : Survey.FieldStep} {r : Recorder σ}
    (hr : Agrees r) (held : HoldsStep r.store (.field step))
    (room : (Faultless.lists r.store).last + (Survey.Step.field step).lists ≤
      ListCounter.greatest) :
    ∃ t, writeField setting step r = .ok () t ∧ Idle (Survey.Step.field step).lists r t := by
  obtain ⟨owner, type, id, howner, htype, hid⟩ := held
  obtain ⟨r1, h1, i1⟩ := symbolId_idle setting hr howner
  obtain ⟨r2, h2, i2⟩ := symbolId_idle setting i1.agrees (i1.outlasts _ htype)
  have i12 := i1.trans i2
  obtain ⟨list, r3, h3, i3⟩ := listFor_idle step.extents i2.agrees
    (by rw [i12.lists]; simpa [Survey.Step.lists] using room)
  have i13 := i12.trans i3
  obtain ⟨r4, h4, i4⟩ := field_idle
    { owner, name := step.name, byteOffset := step.byteOffset, type, dimensions := list
      littleEndian := setting.littleEndian, bitSize := step.bitSize
      bitOffset := step.bitOffset, pointerDepth := step.pointerDepth }
    i3.agrees (i13.outlasts _ hid)
  refine ⟨r4, ?_, by simpa [Survey.Step.lists] using i13.trans i4⟩
  unfold writeField
  rw [bind_of_ok h1, bind_of_ok h2, bind_of_ok h3, bind_of_ok h4]
  rfl

theorem writeStep_idle (setting : Setting) {step : Survey.Step} {r : Recorder σ} (hr : Agrees r)
    (held : HoldsStep r.store step)
    (room : (Faultless.lists r.store).last + step.lists ≤ ListCounter.greatest) :
    ∃ t, writeStep setting step r = .ok () t ∧ Idle step.lists r t := by
  cases step with
  | visit entry name =>
    exact ⟨_, rfl, .of_store_eq rfl (hr.congr rfl rfl rfl) (.refl _)⟩
  | symbol key =>
    obtain ⟨id, hid⟩ := held
    obtain ⟨t, hsymbol, ht⟩ :=
      symbol_idle ⟨setting.origin, key.name, key.byteSize⟩ hr hid
    exact ⟨t, bind_of_ok hsymbol, ht⟩
  | field step => exact writeField_idle setting hr held room
  | enumerator key constant =>
    obtain ⟨owner, id, howner, hid⟩ := held
    obtain ⟨m, hm, im⟩ := symbolId_idle setting hr howner
    obtain ⟨t, ht, it⟩ := enumerator_idle constant.value im.agrees (im.outlasts _ hid)
    exact ⟨t, (bind_of_ok hm).trans ht, im.trans it⟩

/-- Steps whose rows are all there change nothing. -/
theorem writeSteps_idle (setting : Setting) {steps : List Survey.Step} {r : Recorder σ}
    (hr : Agrees r) (held : ∀ step ∈ steps, HoldsStep r.store step)
    (room : (Faultless.lists r.store).last + Survey.listsOf steps ≤ ListCounter.greatest) :
    ∃ t, writeSteps setting steps r = .ok ⟨⟩ t ∧ Idle (Survey.listsOf steps) r t := by
  induction steps generalizing r with
  | nil => exact ⟨r, rfl, .refl hr⟩
  | cons step rest ih =>
    rw [Survey.listsOf_cons] at room
    obtain ⟨m, hm, im⟩ := writeStep_idle setting hr (held step List.mem_cons_self)
      (by push_cast at room; omega)
    obtain ⟨t, ht, it⟩ := ih im.agrees
      (fun other hother => (held other (List.mem_cons_of_mem _ hother)).mono im.outlasts)
      (by rw [im.lists]; push_cast at room; omega)
    refine ⟨t, (forM_cons_of_ok hm).trans ht, ?_⟩
    rw [Survey.listsOf_cons]
    exact im.trans it

end LayoutGraph
