-- Steps enter their entries: whatever the store holds before, the writing of
-- a step ends well, adds the entries of the step that are new to the ledger,
-- and takes as many lists as the step has.
import LayoutGraph.Proofs.Ledger.Move

namespace LayoutGraph

open Chain Recording Survey

/-- From `r` to `t` the entries came into the ledger, and lists were taken. -/
structure Enters (lists : Nat) (entries : Ledger) (r t : Recorder Memory) : Prop where
  tells : ∀ l, r.store.Tells l → t.store.Tells (l.merge entries)
  lists : t.store.lists.last = r.store.lists.last + lists
  outlasts : Outlasts r.store t.store
  agrees : Agrees t

namespace Enters

variable {r t u : Recorder Memory}

theorem refl (hr : Agrees r) : Enters 0 {} r r :=
  ⟨fun _ h => h, by simp, fun _ h => h, hr⟩

theorem trans {j k : Nat} {a b : Ledger} (h : Enters j a r t) (h' : Enters k b t u) :
    Enters (j + k) (a ++ b) r u where
  tells l hl := by
    rw [Ledger.merge_append]
    exact h'.tells _ (h.tells l hl)
  lists := by rw [h'.lists, h.lists]; push_cast; omega
  outlasts := h.outlasts.trans h'.outlasts
  agrees := h'.agrees

theorem withLog {k : Nat} {a : Ledger} (h : Enters k a r t) (log : Array Log.Event) :
    Enters k a r (t.withLog log) :=
  ⟨h.tells, h.lists, h.outlasts, h.agrees.congr rfl rfl rfl⟩

end Enters

variable {setting : Setting} {origin : String} {r : Recorder Memory}

/-! ## Symbols and constants -/

theorem names_origin {m : Memory} {name : String} {id : OriginId} (h : Holds m (.origin name id)) :
    m.originIndex.find? name = some id :=
  (Memory.holds_iff m (.origin name id)).mp h

theorem symbol_enters (hr : Agrees r) (horigin : Holds r.store (.origin origin setting.origin))
    (key : SymbolKey) :
    ∃ inserted t, symbol ⟨setting.origin, key.name, key.byteSize⟩ r = .ok inserted t ∧
      Enters 0 { symbols := [(key, origin)] } r t := by
  obtain ⟨t, ht, hstore⟩ := symbol_memory hr ⟨setting.origin, key.name, key.byteSize⟩
  refine ⟨_, t, ht, fun l hl => ?_, ?_, ?_, (symbol_ok ht hr).1⟩
  · rw [hstore]
    exact hl.insertSymbol (names_origin horigin)
  · rw [hstore, Memory.insertSymbol_lists]
    simp
  · exact outlasts_of_ok (fun held => (steady_holds held).symbol _) ht

theorem symbolId_enters (hr : Agrees r) (horigin : Holds r.store (.origin origin setting.origin))
    (key : SymbolKey) :
    ∃ id t, symbolId setting key r = .ok id t ∧ Holds t.store (.symbol key id) ∧
      Enters 0 { symbols := [(key, origin)] } r t := by
  obtain ⟨t, ht, hstore⟩ := symbolId_memory hr setting key
  obtain ⟨hagrees, hheld⟩ := symbolId_ok ht hr
  refine ⟨_, t, ht, hheld, fun l hl => ?_, ?_, ?_, hagrees⟩
  · rw [hstore]
    exact hl.insertSymbol (names_origin horigin)
  · rw [hstore, Memory.insertSymbol_lists]
    simp
  · exact outlasts_of_ok (fun held => (steady_holds held).symbolId _ _) ht

theorem enumerator_enters (hr : Agrees r) {key : SymbolKey} {symbol : SymbolId}
    (hsymbol : Holds r.store (.symbol key symbol)) (constant : Constant) :
    ∃ t, enumerator symbol constant.name constant.value r = .ok () t ∧
      Enters 0 { enumerators := [(⟨key, constant.name⟩, constant.value)] } r t := by
  obtain ⟨t, ht, hstore⟩ := enumerator_memory symbol constant.name constant.value
  refine ⟨t, ht, fun l hl => ?_, ?_, ?_, (enumerator_ok ht hr).1⟩
  · rw [hstore]
    exact hl.insertEnumerator ⟨key, constant.name⟩ (names_symbol hsymbol) constant.value
  · rw [hstore, Memory.insertEnumerator_lists]
    simp
  · exact outlasts_of_ok (fun held => (steady_holds held).enumerator _ _ _) ht

/-! ## Fields -/

section

variable {owner type : SymbolKey}

theorem plainField_enters (hr : Agrees r) (row : NewField)
    (howner : Holds r.store (.symbol owner row.owner))
    (htype : Holds r.store (.symbol type row.type)) (plain : row.dimensions = none) :
    ∃ inserted t, field row r = .ok inserted t ∧
      Enters 0 { fields := [(⟨owner, row.name⟩, row.content type [])] } r t := by
  obtain ⟨t, ht, hstore⟩ := field_memory hr row
  refine ⟨_, t, ht, fun l hl => ?_, ?_, ?_, (field_ok ht hr).1⟩
  · rw [hstore]
    exact hl.insertField ⟨owner, row.name⟩ (names_symbol howner) rfl (names_symbol htype)
      plain
  · rw [hstore, Memory.insertField_lists]
    simp
  · exact outlasts_of_ok (fun held => (steady_holds held).field _) ht

/-- The axes of an array field come only with a field that is new. -/
theorem arrayField_enters (hr : Agrees r) (row : NewField)
    (howner : Holds r.store (.symbol owner row.owner))
    (htype : Holds r.store (.symbol type row.type)) (extents : List Nat)
    (room : r.store.lists.last < ListCounter.greatest) :
    ∃ list r1 inserted r2 t, ask .allocateList r = .ok list r1 ∧
      field { row with dimensions := some list } r1 = .ok inserted r2 ∧
      (match inserted with
        | .created _ => writeDimensions list extents
        | .existing _ => pure () : Recording Memory Unit) r2 = .ok () t ∧
      Enters 1 { fields := [(⟨owner, row.name⟩, row.content type extents)] } r t := by
  let list : ListId := ⟨r.store.lists.last + 1⟩
  let taken : Memory := { r.store with lists := ⟨r.store.lists.last + 1⟩ }
  let listed : NewField := { row with dimensions := some list }
  have hask : ask .allocateList r = .ok list { r with store := taken } :=
    ask_memory (Memory.allocateList_of_lt room)
  have hr1 := hr.ask hask
  have last1 : Outlasts r.store taken :=
    outlasts_of_ok (fun held => (steady_holds held).ask _) hask
  obtain ⟨r2, hfield, hstore⟩ := field_memory hr1 listed
  have last2 : Outlasts taken r2.store :=
    outlasts_of_ok (fun held => (steady_holds held).field _) hfield
  have hr2 := (field_ok hfield hr1).1
  cases hfind : r.store.fieldIndex.find? row.key with
  | some id =>
    have hsame : taken.insertField listed = (.existing id, taken) :=
      Memory.insertField_of_some hfind
    rw [hsame] at hfield hstore
    refine ⟨list, _, _, r2, r2, hask, hfield, rfl, fun l hl => ?_, ?_, last1.trans last2, hr2⟩
    · have hpresent := hl.field_present ⟨owner, row.name⟩ (names_symbol howner) hfind
      show r2.store.Tells { l with fields := Table.addNew l.fields _ }
      rw [hstore, Table.addNew_of_mem hpresent]
      exact hl.take_list
    · rw [hstore]
      rfl
  | none =>
    have habsent : taken.fieldIndex.find? listed.key = none := hfind
    have hnew := congrArg Prod.fst (Memory.insertField_of_none habsent)
    rw [show (taken.insertField listed).1 = _ from hnew] at hfield
    obtain ⟨t, ht, haxes⟩ := writeDimensions_memory (r := r2) list extents
    refine ⟨list, _, _, r2, t, hask, hfield, ht, fun l hl => ?_, ?_, ?_, writeDimensions_ok ht hr2⟩
    · rw [haxes, hstore]
      exact hl.insertArray ⟨owner, row.name⟩ extents (names_symbol howner) rfl
        (names_symbol htype) rfl hfind
    · have hlists := Memory.insertField_lists taken listed
      have seen : list.raw ≤ (taken.insertField listed).2.lists.last :=
        Int.le_of_eq (congrArg ListCounter.last hlists.symm)
      rw [haxes, hstore, Memory.withAxes_lists extents seen, hlists]
      rfl
    · exact (last1.trans last2).trans
        (outlasts_of_ok (fun held => (steady_holds held).writeDimensions _ _) ht)

end

theorem writeField_enters (hr : Agrees r) (horigin : Holds r.store (.origin origin setting.origin))
    (step : FieldStep)
    (room : r.store.lists.last + (Step.field step).lists ≤ ListCounter.greatest) :
    ∃ t, writeField setting step r = .ok () t ∧
      Enters (Step.field step).lists ((Step.field step).entries origin setting.littleEndian)
        r t := by
  obtain ⟨owner, r1, h1, howner, e1⟩ := symbolId_enters hr horigin step.owner
  obtain ⟨type, r2, h2, htype, e2⟩ :=
    symbolId_enters e1.agrees (e1.outlasts _ horigin) step.type
  have howner2 := e2.outlasts _ howner
  let row : NewField :=
    { owner, name := step.name, byteOffset := step.byteOffset, type, dimensions := none
      littleEndian := setting.littleEndian, bitSize := step.bitSize, bitOffset := step.bitOffset
      pointerDepth := step.pointerDepth }
  have hlists : (Step.field step).lists = if step.extents.isEmpty then 0 else 1 := rfl
  have hentries : (Step.field step).entries origin setting.littleEndian =
      { symbols := [(step.owner, origin), (step.type, origin)]
        fields := [(⟨step.owner, row.name⟩, row.content step.type step.extents)] } := rfl
  unfold writeField
  rw [bind_of_ok h1, bind_of_ok h2]
  rw [hentries]
  rw [hlists] at room ⊢
  cases hextents : step.extents with
  | nil =>
    obtain ⟨inserted, t, hfield, e3⟩ :=
      plainField_enters e2.agrees row howner2 htype rfl
    have hlist : listFor [] r2 = .ok none r2 := rfl
    rw [bind_of_ok hlist, bind_of_ok hfield]
    exact ⟨t, by cases inserted <;> rfl, (e1.trans e2).trans e3⟩
  | cons extent rest =>
    have e12 := e1.trans e2
    have hone : (if step.extents.isEmpty then 0 else 1) = 1 := by rw [hextents]; rfl
    rw [hone] at room
    obtain ⟨list, r3, inserted, r4, t, hask, hfield, haxes, e3⟩ :=
      arrayField_enters e2.agrees row howner2 htype (extent :: rest) (by
        rw [e12.lists]
        push_cast at room ⊢
        omega)
    have hlist : listFor (extent :: rest) r2 = .ok (some list) r3 := bind_of_ok hask
    rw [bind_of_ok hlist, bind_of_ok hfield]
    refine ⟨t, ?_, e12.trans e3⟩
    cases inserted <;> exact haxes

theorem writeStep_enters (hr : Agrees r) (horigin : Holds r.store (.origin origin setting.origin))
    (step : Step) (room : r.store.lists.last + step.lists ≤ ListCounter.greatest) :
    ∃ t, writeStep setting step r = .ok () t ∧
      Enters step.lists (step.entries origin setting.littleEndian) r t := by
  cases step with
  | visit entry name => exact ⟨_, rfl, (Enters.refl hr).withLog _⟩
  | symbol key =>
    obtain ⟨inserted, t, ht, e⟩ := symbol_enters hr horigin key
    exact ⟨t, bind_of_ok ht, e⟩
  | field step => exact writeField_enters hr horigin step room
  | enumerator key constant =>
    obtain ⟨symbol, m, hm, hsymbol, e1⟩ := symbolId_enters hr horigin key
    obtain ⟨t, ht, e2⟩ := enumerator_enters e1.agrees hsymbol constant
    exact ⟨t, (bind_of_ok hm).trans ht, e1.trans e2⟩

/-- Steps in a row enter all their entries. -/
theorem writeSteps_enters (setting : Setting) (hr : Agrees r)
    (horigin : Holds r.store (.origin origin setting.origin))
    (steps : List Step) (room : r.store.lists.last + listsOf steps ≤ ListCounter.greatest) :
    ∃ t, writeSteps setting steps r = .ok ⟨⟩ t ∧
      Enters (listsOf steps) (entriesOf origin setting.littleEndian steps) r t := by
  induction steps generalizing r with
  | nil => exact ⟨r, rfl, .refl hr⟩
  | cons step rest ih =>
    rw [listsOf_cons] at room ⊢
    obtain ⟨m, hm, e1⟩ := writeStep_enters hr horigin step (by push_cast at room; omega)
    obtain ⟨t, ht, e2⟩ := ih e1.agrees (e1.outlasts _ horigin)
      (by rw [e1.lists]; push_cast at room; omega)
    refine ⟨t, (forM_cons_of_ok hm).trans ht, ?_⟩
    rw [entriesOf_cons]
    exact e1.trans e2

/-! ## A full counter -/

theorem listFor_overflows (hfull : r.store.lists.last = ListCounter.greatest) (extent : Nat)
    (rest : List Nat) : listFor (extent :: rest) r = .error (.overflow .add) r := by
  have hanswer : r.store.answer .allocateList = .error (.overflow .add) := by
    simp [Memory.answer, Memory.allocateList, ListCounter.next, hfull, Except.map]
  have hserve : Store.serve .allocateList r.store = .error (.overflow .add) r.store :=
    ofStep_error_iff.mpr ⟨hanswer, rfl⟩
  refine bind_of_error ?_
  unfold ask
  rw [hserve]

/-- Where the counter has no list to give, an array field ends the program. -/
theorem writeField_overflows (hr : Agrees r)
    (horigin : Holds r.store (.origin origin setting.origin))
    (hlast : r.store.lists.last ≤ ListCounter.greatest) {step : FieldStep}
    (full : ListCounter.greatest < r.store.lists.last + (Step.field step).lists) :
    ∃ t, writeField setting step r = .error (.overflow .add) t := by
  obtain ⟨owner, r1, h1, -, e1⟩ := symbolId_enters hr horigin step.owner
  obtain ⟨type, r2, h2, -, e2⟩ := symbolId_enters e1.agrees (e1.outlasts _ horigin) step.type
  have hlists : r2.store.lists.last = r.store.lists.last := by simpa using (e1.trans e2).lists
  rw [show (Step.field step).lists = if step.extents.isEmpty then 0 else 1 from rfl] at full
  unfold writeField
  rw [bind_of_ok h1, bind_of_ok h2]
  cases hextents : step.extents with
  | nil =>
    rw [hextents] at full
    simp only [List.isEmpty_nil, if_true] at full
    push_cast at full
    omega
  | cons extent rest =>
    rw [hextents] at full
    simp only [List.isEmpty_cons, Bool.false_eq_true, if_false] at full
    push_cast at full
    exact ⟨r2, bind_of_error (listFor_overflows (by omega) extent rest)⟩

theorem writeStep_overflows (hr : Agrees r)
    (horigin : Holds r.store (.origin origin setting.origin))
    (hlast : r.store.lists.last ≤ ListCounter.greatest) (step : Step)
    (full : ListCounter.greatest < r.store.lists.last + step.lists) :
    ∃ t, writeStep setting step r = .error (.overflow .add) t := by
  cases step with
  | field step => exact writeField_overflows hr horigin hlast full
  | visit => simp [Step.lists] at full; omega
  | symbol => simp [Step.lists] at full; omega
  | enumerator => simp [Step.lists] at full; omega

/-- Steps that take more lists than there are end the program. -/
theorem writeSteps_overflows (setting : Setting) (hr : Agrees r)
    (horigin : Holds r.store (.origin origin setting.origin))
    (hlast : r.store.lists.last ≤ ListCounter.greatest) {steps : List Step}
    (full : ListCounter.greatest < r.store.lists.last + listsOf steps) :
    ∃ t, writeSteps setting steps r = .error (.overflow .add) t := by
  induction steps generalizing r with
  | nil =>
    simp only [listsOf] at full
    push_cast at full
    omega
  | cons step rest ih =>
    by_cases hroom : r.store.lists.last + step.lists ≤ ListCounter.greatest
    · obtain ⟨m, hm, e⟩ := writeStep_enters hr horigin step hroom
      rw [listsOf_cons] at full
      push_cast at full
      obtain ⟨t, ht⟩ := ih e.agrees (e.outlasts _ horigin) (by rw [e.lists]; exact hroom)
        (by rw [e.lists]; omega)
      exact ⟨t, (forM_cons_of_ok hm).trans ht⟩
    · obtain ⟨t, ht⟩ := writeStep_overflows hr horigin hlast step (by omega)
      exact ⟨t, bind_of_error ht⟩

end LayoutGraph
