-- The dimension lists of a database. Each array field has a list of its own
-- that the counter is past. The counter of a database that is opened again is
-- past the lists of the axis rows alone, so a list lasts from the row of its
-- outermost axis on, and not from the row of its field on.
import Mathlib.Data.List.Nodup
import Mathlib.Data.List.Pairwise
import LayoutGraph.Proofs.Store.Database

namespace LayoutGraph

namespace Graph

/-- The lists of the array fields, in the order of their fields. -/
def fieldLists (g : Graph) : List ListId := g.fields.filterMap Field.dimensions

/-- The fields have different lists, or none. -/
def Apart (f f' : Field) : Prop := ∀ list, f.dimensions = some list → f'.dimensions ≠ some list

instance : Std.Symm Apart := ⟨fun _ _ h list hlist hsame => h list hsame hlist⟩

/-- Two fields that have one list are one field. -/
theorem eq_of_list {g : Graph} (once : g.fieldLists.Nodup) {f f' : Field} (hf : f ∈ g.fields)
    (hf' : f' ∈ g.fields) {list : ListId} (hlist : f.dimensions = some list)
    (hlist' : f'.dimensions = some list) : f = f' := by
  by_contra hne
  have apart : g.fields.Pairwise Apart := by
    refine (List.pairwise_filterMap.mp once).imp fun h list hlist hsame => ?_
    exact h list hlist list hsame rfl
  exact apart.forall hf hf' hne list hlist hlist'

theorem fieldLists_snoc {g next : Graph} {row : NewField} {id : FieldId}
    (h : next.fields = g.fields ++ [row.withId id]) :
    next.fieldLists = g.fieldLists ++ row.dimensions.toList := by
  unfold fieldLists
  rw [h, List.filterMap_append]
  cases hdimensions : row.dimensions <;> simp [NewField.withId, hdimensions]

theorem list_of_mem_dimensionsOf {g : Graph} {list : ListId} {d : Dimension}
    (h : d ∈ g.dimensionsOf list) : d.list = list := by
  unfold dimensionsOf at h
  have hkept := (List.mem_filter.mp (List.mem_mergeSort.mp h)).2
  exact of_decide_eq_true hkept

end Graph

namespace Database

/-! ## The greatest list -/

theorem le_foldl_max (rows : List Dimension) (start : Int) :
    start ≤ rows.foldl (fun greatest row => max greatest row.list.raw) start := by
  induction rows generalizing start with
  | nil => exact Int.le_refl start
  | cons row rest ih => exact Int.le_trans (Int.le_max_left _ _) (ih _)

theorem list_le_foldl_max {rows : List Dimension} {d : Dimension} (h : d ∈ rows) (start : Int) :
    d.list.raw ≤ rows.foldl (fun greatest row => max greatest row.list.raw) start := by
  induction rows generalizing start with
  | nil => cases h
  | cons row rest ih =>
    rcases List.mem_cons.mp h with rfl | h
    · exact Int.le_trans (Int.le_max_right _ _) (le_foldl_max rest _)
    · exact ih h _

theorem list_le_greatestList {rows : List Dimension} {d : Dimension} (h : d ∈ rows) :
    d.list.raw ≤ greatestList rows := by
  cases rows with
  | nil => cases h
  | cons row rest =>
    rcases List.mem_cons.mp h with rfl | h
    · exact le_foldl_max rest _
    · exact list_le_foldl_max h _

/-! ## Own lists -/

/-- No two array fields have one list, and the counter is past each of these lists. Each has an
axis row, but for the list that waits for its axes. -/
structure OwnLists (waiting : Option ListId) (db : Database) : Prop where
  once : db.graph.fieldLists.Nodup
  counted : ∀ list ∈ db.graph.fieldLists, list.raw ≤ db.lists.last
  kept : ∀ list ∈ db.graph.fieldLists,
    waiting = some list ∨ ∃ d ∈ db.graph.dimensions, d.list = list

/-- A list that no field has and that the counter is past. -/
structure Fresh (list : ListId) (db : Database) : Prop where
  counted : list.raw ≤ db.lists.last
  unused : list ∉ db.graph.fieldLists

theorem ownLists_empty : OwnLists none {} where
  once := List.nodup_nil
  counted _ h := absurd h List.not_mem_nil
  kept _ h := absurd h List.not_mem_nil

namespace OwnLists

variable {waiting : Option ListId} {db next : Database}

/-- Axis rows may come and the counter may go on. -/
theorem moved (h : OwnLists waiting db) (hfields : next.graph.fields = db.graph.fields)
    (hrows : ∀ d ∈ db.graph.dimensions, d ∈ next.graph.dimensions)
    (hlists : db.lists.last ≤ next.lists.last) : OwnLists waiting next := by
  have hsame : next.graph.fieldLists = db.graph.fieldLists := by
    unfold Graph.fieldLists
    rw [hfields]
  refine ⟨hsame ▸ h.once, fun list hlist => ?_, fun list hlist => ?_⟩ <;> rw [hsame] at hlist
  · exact Int.le_trans (h.counted list hlist) hlists
  · rcases h.kept list hlist with hwaits | ⟨d, hd, hown⟩
    · exact .inl hwaits
    · exact .inr ⟨d, hrows d hd, hown⟩

/-- The counter of a database that is opened again is past every list that is kept. -/
theorem reopen (h : OwnLists none db) : OwnLists none db.reopen where
  once := h.once
  counted list hlist := by
    rcases h.kept list hlist with hwaits | ⟨d, hd, rfl⟩
    · cases hwaits
    · exact list_le_greatestList hd
  kept := h.kept

end OwnLists

/-! ## Requests -/

theorem insertDimension_rows {db next : Database} {list : ListId} {order extent : Nat}
    {reply : DimensionId} (h : db.insertDimension list order extent = .ok (reply, next)) :
    next.graph.fields = db.graph.fields ∧
      (∀ d ∈ db.graph.dimensions, d ∈ next.graph.dimensions) ∧
      (∃ d ∈ next.graph.dimensions, d.list = list) ∧ db.lists.last ≤ next.lists.last := by
  unfold insertDimension at h
  obtain ⟨-, -, h⟩ := bind_eq_ok.mp h
  obtain ⟨-, -, h⟩ := bind_eq_ok.mp h
  split at h <;> rename_i heq <;> cases h
  · have hkey := List.find?_some heq
    have hmem := List.mem_of_find?_eq_some heq
    refine ⟨rfl, fun _ hd => hd, ⟨_, hmem, ?_⟩, Int.le_max_left _ _⟩
    simp only [Dimension.key, decide_eq_true_eq, DimensionKey.mk.injEq] at hkey
    exact hkey.1
  · have hmem := List.mem_append_right db.graph.dimensions (List.mem_singleton_self
      (⟨⟨nextId (db.graph.dimensions.map fun d => d.id.raw)⟩, list, order, extent⟩ : Dimension))
    exact ⟨rfl, fun _ hd => List.mem_append_left _ hd, ⟨_, hmem, rfl⟩, Int.le_max_left _ _⟩

theorem insertDimension_of_fits {db : Database} {extent : Nat} (fits : extent < columnEnd)
    (mayWrite : db.mayWrite = true) (list : ListId) (order : Nat) :
    ∃ reply next, db.insertDimension list order extent = .ok (reply, next) := by
  have hfits : checkFits "extent" extent = .ok () := checkFits_eq_ok.mpr fits
  have hmay : db.checkMayWrite = .ok () := checkMayWrite_eq_ok.mpr mayWrite
  unfold insertDimension
  rw [hfits, hmay]
  cases db.graph.dimensions.find? fun d => d.key = ⟨list, order⟩ with
  | some taken => exact ⟨_, _, rfl⟩
  | none => exact ⟨_, _, rfl⟩

theorem allocateList_fresh {waiting : Option ListId} {db next : Database} {list : ListId}
    (own : OwnLists waiting db) (h : db.allocateList = .ok (list, next)) :
    OwnLists waiting next ∧ Fresh list next := by
  unfold allocateList ListCounter.next at h
  split at h <;> cases h
  refine ⟨own.moved rfl (fun _ hd => hd) (by dsimp only; omega), Int.le_refl _, fun hused => ?_⟩
  have hle := own.counted _ hused
  dsimp only at hle
  omega

/-- A request that neither inserts a field nor changes one. -/
def leavesFields : Method → Bool
  | .insertField | .retargetFields | .setFieldType => false
  | _ => true

theorem OwnLists.answer {waiting : Option ListId} {db next : Database} (own : OwnLists waiting db)
    {α : Type} {request : Request α} {reply : α} (leaves : leavesFields request.method = true)
    (h : db.answer request = .ok (reply, next)) : OwnLists waiting next := by
  cases request <;> simp only [Request.method, leavesFields, Bool.false_eq_true] at leaves
  case insertOrigin name littleEndian =>
    obtain ⟨_, -, -, rfl⟩ | ⟨-, _, -, rfl⟩ := insertOrigin_ok h
    · exact own
    · exact own.moved rfl (fun _ hd => hd) (Int.le_refl _)
  case insertSymbol row =>
    obtain ⟨-, ⟨_, -, -, rfl⟩ | ⟨-, _, -, rfl⟩⟩ := insertSymbol_ok h
    · exact own
    · exact own.moved rfl (fun _ hd => hd) (Int.le_refl _)
  case insertEnumerator symbol name value =>
    obtain ⟨-, ⟨_, -, -, rfl⟩ | ⟨-, _, -, rfl⟩⟩ := insertEnumerator_ok h
    · exact own
    · exact own.moved rfl (fun _ hd => hd) (Int.le_refl _)
  case insertDimension list order extent =>
    obtain ⟨hfields, hrows, -, hlists⟩ := insertDimension_rows h
    exact own.moved hfields hrows hlists
  case allocateList => exact (allocateList_fresh own h).1
  case findSymbol key =>
    simp only [Database.answer] at h
    cases hfind : db.findSymbol key <;> rw [hfind] at h <;> cases h
    exact own
  all_goals
    cases h
    exact own

theorem insertField_mayWrite {db next : Database} {row : NewField} {reply : Inserted FieldId}
    (h : db.insertField row = .ok (reply, next)) : db.mayWrite = true := by
  unfold insertField at h
  obtain ⟨-, -, h⟩ := bind_eq_ok.mp h
  obtain ⟨-, -, h⟩ := bind_eq_ok.mp h
  obtain ⟨-, -, h⟩ := bind_eq_ok.mp h
  obtain ⟨u, hmay, -⟩ := bind_eq_ok.mp h
  exact checkMayWrite_eq_ok.mp hmay

/-- A field that is created with a fresh list waits for its axes. -/
theorem OwnLists.insertField {db next : Database} (own : OwnLists none db) {row : NewField}
    (fresh : ∀ list, row.dimensions = some list → Fresh list db) {id : FieldId}
    (h : db.insertField row = .ok (.created id, next)) :
    OwnLists row.dimensions next ∧ next.mayWrite = true := by
  have mayWrite := insertField_mayWrite h
  obtain ⟨_, -, hreply, -⟩ | ⟨-, fid, -, hnext⟩ := insertField_ok h
  · cases hreply
  have hfields : next.graph.fields = db.graph.fields ++ [row.withId fid] := by rw [hnext]
  have hrows : next.graph.dimensions = db.graph.dimensions := by rw [hnext]
  have hcounter : next.lists = db.lists := by rw [hnext]
  have hmay : next.mayWrite = db.mayWrite := by rw [hnext]
  have hlists := Graph.fieldLists_snoc hfields
  have alone : row.dimensions.toList.Nodup := by
    cases row.dimensions with
    | none => exact List.nodup_nil
    | some list => exact List.nodup_singleton list
  refine ⟨⟨?_, fun list hlist => ?_, fun list hlist => ?_⟩, hmay.trans mayWrite⟩
  · refine hlists ▸ List.nodup_append.mpr ⟨own.once, alone, ?_⟩
    rintro list hused _ hnew rfl
    exact (fresh list (Option.mem_toList.mp hnew)).unused hused
  · rw [hcounter]
    rcases List.mem_append.mp (hlists ▸ hlist) with hlist | hlist
    · exact own.counted list hlist
    · exact (fresh list (Option.mem_toList.mp hlist)).counted
  · rw [hrows]
    rcases List.mem_append.mp (hlists ▸ hlist) with hlist | hlist
    · exact .inr ((own.kept list hlist).resolve_left nofun)
    · exact .inl (Option.mem_toList.mp hlist)

/-- The first axis row ends the wait. -/
theorem OwnLists.insertDimension {db next : Database} {list : ListId} {order extent : Nat}
    {reply : DimensionId} (own : OwnLists (some list) db)
    (h : db.insertDimension list order extent = .ok (reply, next)) : OwnLists none next := by
  obtain ⟨hfields, hrows, hfirst, hlists⟩ := insertDimension_rows h
  have moved := own.moved hfields hrows hlists
  refine ⟨moved.once, moved.counted, fun other hother => .inr ?_⟩
  rcases moved.kept other hother with hwaits | hkept
  · cases hwaits
    exact hfirst
  · exact hkept

end Database

end LayoutGraph
