-- The axes of array fields, after any passes. A pass that goes on, fails or
-- breaks off leaves a store whose lists are whole: a list that was taken for
-- nothing has no axes, and a field that comes has all of its axes at once.
import LayoutGraph.Proofs.Exactness
import LayoutGraph.Proofs.Ledger.Whole
import LayoutGraph.Proofs.Merging
import LayoutGraph.Proofs.Retry
import LayoutGraph.Proofs.Survey.InTurn

namespace LayoutGraph

open Recording Survey

namespace Memory

variable {setting : Setting} {m n o : Memory} {l : Ledger} {origin : String}
  {entries more : List (MemberKey × FieldContent)}

/-! ## Stores with whole lists -/

/-- The store tells the ledger, and its lists are whole. -/
structure Tidy (m : Memory) (l : Ledger) : Prop where
  tells : m.Tells l
  whole : m.graph.Whole

theorem tidy_empty : Tidy {} {} := ⟨tells_empty, Graph.whole_empty⟩

/-- A tidy store stays tidy, its fields stay, and those that come are of the entries. -/
def Adds (entries : List (MemberKey × FieldContent)) (m n : Memory) : Prop :=
  ∀ l, m.Tidy l → ∃ k new added, n.Tidy k ∧ n.graph.fields = m.graph.fields ++ new ∧
    k.fields = l.fields ++ added ∧ added ⊆ entries

namespace Adds

theorem refl (entries : List (MemberKey × FieldContent)) (m : Memory) : Adds entries m m :=
  fun l h => ⟨l, [], [], h, (List.append_nil _).symm, (List.append_nil _).symm, List.nil_subset _⟩

theorem trans (h : Adds entries m n) (h' : Adds entries n o) : Adds entries m o := by
  intro l hm
  obtain ⟨k, new, added, hn, hnew, hadded, hsub⟩ := h l hm
  obtain ⟨k', new', added', ho, hnew', hadded', hsub'⟩ := h' k hn
  refine ⟨k', new ++ new', added ++ added', ho, ?_, ?_, List.append_subset.mpr ⟨hsub, hsub'⟩⟩
  · rw [hnew', hnew, List.append_assoc]
  · rw [hadded', hadded, List.append_assoc]

theorem mono (h : Adds entries m n) (hsub : entries ⊆ more) : Adds more m n := by
  intro l hm
  obtain ⟨k, new, added, hn, hnew, hadded, hentries⟩ := h l hm
  exact ⟨k, new, added, hn, hnew, hadded, List.Subset.trans hentries hsub⟩

/-- The rows that a move leaves alone are read as before, and those that come are entries. -/
theorem reads (h : Adds entries m n) (hm : m.Tidy l) :
    (∀ f ∈ m.graph.fields, f ∈ n.graph.fields ∧ n.graph.readField f = m.graph.readField f) ∧
      ∀ f ∈ n.graph.fields, f ∉ m.graph.fields → ∃ e ∈ entries, n.graph.readField f = some e := by
  obtain ⟨k, new, added, hn, hnew, hadded, hsub⟩ := h l hm
  have hread := hn.tells.reads.fields
  have hold := hm.tells.reads.fields
  rw [hnew, hadded, List.map_append, List.map_append] at hread
  have hlength : (m.graph.fields.map n.graph.readField).length = (l.fields.map some).length := by
    rw [← hold, List.length_map, List.length_map]
  obtain ⟨hkept, hcame⟩ := List.append_inj hread hlength
  refine ⟨fun f hf => ⟨hnew ▸ List.mem_append_left _ hf, ?_⟩, fun f hf hfresh => ?_⟩
  · exact List.map_inj_left.mp (hkept.trans hold.symm) f hf
  · have hf := (List.mem_append.mp (hnew ▸ hf)).resolve_left hfresh
    have hmem : n.graph.readField f ∈ added.map some := hcame ▸ List.mem_map_of_mem hf
    obtain ⟨e, he, heq⟩ := List.mem_map.mp hmem
    exact ⟨e, hsub he, heq.symm⟩

/-- Rows may come that are neither fields nor axes. -/
theorem of_tells (htells : ∀ l, m.Tells l → ∃ k, n.Tells k ∧ k.fields = l.fields)
    (fields : n.graph.fields = m.graph.fields)
    (dimensions : n.graph.dimensions = m.graph.dimensions) : Adds entries m n := by
  intro l hm
  obtain ⟨k, hk, hsame⟩ := htells l hm.tells
  have hlists : n.graph.fieldLists = m.graph.fieldLists := congrArg (List.filterMap _) fields
  exact ⟨k, [], [], ⟨hk, hm.whole.congr hlists dimensions⟩, fields.trans (List.append_nil _).symm,
    hsame.trans (List.append_nil _).symm, List.nil_subset _⟩

/-- A field may come of an entry, with a list that is whole. -/
theorem of_entry {e : MemberKey × FieldContent} (hmem : e ∈ entries)
    (h : ∀ l, m.Tidy l → n.Tidy { l with fields := Table.addNew l.fields e } ∧
      ∃ new, n.graph.fields = m.graph.fields ++ new) : Adds entries m n := by
  intro l hm
  obtain ⟨hn, new, hnew⟩ := h l hm
  obtain ⟨added, hadded, hsub⟩ := Table.exists_addNew l.fields e
  exact ⟨_, new, added, hn, hnew, hadded, fun _ he => List.mem_singleton.mp (hsub he) ▸ hmem⟩

end Adds

/-! ## Moves -/

theorem adds_enterOrigin (source : Source) : Adds entries m (m.enterOrigin source) := by
  refine .of_tells (fun l h => ⟨_, h.insertOrigin source.origin source.littleEndian, rfl⟩) ?_ ?_ <;>
    unfold enterOrigin insertOrigin <;> split <;> rfl

theorem adds_insertSymbol {row : NewSymbol} (horigin : Holds m (.origin origin row.origin)) :
    Adds entries m (m.insertSymbol row).2 := by
  refine .of_tells (fun l h => ⟨_, h.insertSymbol (names_origin horigin), rfl⟩) ?_ ?_ <;>
    unfold insertSymbol <;> split <;> rfl

theorem adds_intern (horigin : Holds m (.origin origin setting.origin)) (keys : List SymbolKey) :
    Adds entries m (m.intern setting keys) := by
  induction keys generalizing m with
  | nil => exact .refl _ m
  | cons key rest ih =>
    have hlasts : Outlasts m (m.insertSymbol (setting.row key)).2 :=
      outlasts_of_answer (.insertSymbol (setting.row key)) rfl
    exact (adds_insertSymbol horigin).trans (ih (hlasts _ horigin))

theorem adds_insertEnumerator {key : SymbolKey} {symbol : SymbolId}
    (hsymbol : Holds m (.symbol key symbol)) (constant : Constant) :
    Adds entries m (m.insertEnumerator symbol constant.name constant.value).2 := by
  refine .of_tells (fun l h => ⟨_, h.insertEnumerator ⟨key, constant.name⟩
    (names_symbol hsymbol) constant.value, rfl⟩) ?_ ?_ <;>
    unfold insertEnumerator <;> split <;> rfl

theorem adds_takeList (extents : List Nat) : Adds entries m (m.takeList extents).2 := by
  unfold takeList
  split
  · exact .refl _ m
  · exact .of_tells (fun l h => ⟨l, h.take_list, rfl⟩) rfl rfl

section

variable {step : FieldStep}
  (howner : Holds m (.symbol step.owner (m.symbolOf step.owner)))
  (htype : Holds m (.symbol step.type (m.symbolOf step.type)))
  (hmem : (⟨step.owner, step.name⟩, step.content setting.littleEndian) ∈ entries)
  (absent : m.fieldIndex.find? ⟨m.symbolOf step.owner, step.name⟩ = none)

include howner htype hmem

include absent in
/-- A new field without extents takes no list. -/
theorem adds_plain (hempty : step.extents.isEmpty = true) :
    Adds entries m (m.layField setting step) := by
  let row := m.fieldRow setting step none
  have hinsert : m.insertField row = (.created ⟨nextId m.graph.fields⟩,
      m.withField row [] m.dimensionIndex m.lists) := insertField_of_none absent
  have hlaid : m.layField setting step = (m.insertField row).2 :=
    (layField_plain absent hempty).trans (congrArg Prod.snd hinsert).symm
  refine .of_entry hmem fun l hm => ?_
  have htells := hm.tells.insertField ⟨step.owner, step.name⟩ (names_symbol howner)
    (show row.name = step.name from rfl) (names_symbol htype) rfl
  rw [← List.isEmpty_iff.mp hempty, ← hlaid] at htells
  rw [hinsert] at hlaid
  refine ⟨⟨htells, ?_⟩, _, congrArg (fun n => n.graph.fields) hlaid⟩
  rw [hlaid]
  exact hm.whole.plain rfl rfl (List.append_nil _)

include absent in
/-- A new field with extents comes with all of its axes. -/
theorem adds_array (hempty : step.extents.isEmpty = false) :
    Adds entries m (m.layField setting step) := by
  let list : ListId := ⟨m.lists.last + 1⟩
  let row := m.fieldRow setting step (some list)
  have absent : m.fieldIndex.find? row.key = none := absent
  have hlaid : m.layField setting step = _ := layField_array absent hempty
  refine .of_entry hmem fun l hm => ?_
  have htells := hm.tells.insertArray ⟨step.owner, step.name⟩ step.extents (names_symbol howner)
    (show row.name = step.name from rfl) (names_symbol htype) rfl absent
  obtain ⟨axes, index, hplaced, haxes, -⟩ := placeArray hm.tells.axes row step.extents absent
  rw [← hlaid] at htells
  rw [hplaced] at hlaid
  refine ⟨⟨htells, ?_⟩, _, congrArg (fun n => n.graph.fields) hlaid⟩
  rw [hlaid]
  refine hm.whole.array rfl rfl rfl (list_unused hm.tells.dimensions) (fun hnil => ?_) haxes
  rw [hnil] at hempty
  cases hempty

/-- A field that is there takes a list at most. -/
theorem adds_layField : Adds entries m (m.layField setting step) := by
  cases hfind : m.fieldIndex.find? ⟨m.symbolOf step.owner, step.name⟩ with
  | some id =>
    rw [layField_of_some hfind]
    exact adds_takeList _
  | none =>
    cases hempty : step.extents.isEmpty with
    | true => exact adds_plain howner htype hmem hfind hempty
    | false => exact adds_array howner htype hmem hfind hempty

end

/-! ## Steps -/

theorem adds_lay (horigin : Holds m (.origin origin setting.origin)) {step : Step}
    (covers : Covers entries setting [step]) : Adds entries m (m.lay setting step) := by
  have hsymbols {key : SymbolKey} (hkey : key ∈ step.symbols) :=
    holds_symbols_intern m setting step hkey
  refine (adds_intern horigin step.symbols).trans ?_
  cases step with
  | visit | symbol => exact .refl _ _
  | field step =>
    exact adds_layField (hsymbols List.mem_cons_self)
      (hsymbols (List.mem_cons_of_mem _ (List.mem_singleton_self _)))
      (covers step (List.mem_singleton_self _))
  | enumerator key constant =>
    exact adds_insertEnumerator (hsymbols (List.mem_singleton_self key)) constant

theorem adds_layAll (horigin : Holds m (.origin origin setting.origin)) {steps : List Step}
    (covers : Covers entries setting steps) : Adds entries m (m.layAll setting steps) := by
  induction steps generalizing m with
  | nil => exact .refl _ m
  | cons step rest ih =>
    exact (adds_lay horigin covers.head).trans (ih (outlasts_lay step _ horigin) covers.tail)

/-- Where no axis is torn off, a step that is cut short leaves no field. -/
theorem Cut.adds {torn : Prop} (untorn : ¬ torn) (horigin : Holds m (.origin origin setting.origin))
    {step : Step} (h : Cut torn setting m step n) : Adds entries m n := by
  cases h with
  | symbols before => exact adds_intern horigin before
  | list hn =>
    subst hn
    exact (adds_intern horigin _).trans (adds_takeList _)
  | axes htorn => exact absurd htorn untorn

theorem Broken.adds {torn : Prop} (untorn : ¬ torn)
    (horigin : Holds m (.origin origin setting.origin)) {steps : List Step}
    (covers : Covers entries setting steps) (h : Broken torn setting m steps n) :
    Adds entries m n := by
  obtain ⟨before, step, after, rfl, hcut⟩ := h
  exact (adds_layAll horigin fun s hs => covers s (List.mem_append_left _ hs)).trans
    (hcut.adds untorn (outlasts_layAll before _ horigin))

/-! ## Passes -/

theorem not_tearsAxes : ¬ TearsAxes Memory := by
  rintro ⟨_, _, h⟩
  cases h

/-- A call to parse adds fields of its source, however it ends. -/
theorem adds_parse (source : Source) (m : Memory) :
    Adds source.entries.fields m (Session.parse source m).2 := by
  have horigin : Holds (m.enterOrigin source) (.origin source.origin (m.settingOf source).origin) :=
    holds_of_answer (.insertOrigin source.origin source.littleEndian) rfl rfl
  have covers := covers_steps source (m.settingOf source).origin
  have hleft : (Session.parse source m).2 = m ∨ (Session.parse source m).2 = m.laySource source ∨
      Broken (TearsAxes Memory) (m.settingOf source) (m.enterOrigin source) source.steps
        (Session.parse source m).2 := parse_struck errorsOnly_memory source m
  rcases hleft with h | h | h
  · rw [h]
    exact .refl _ m
  · rw [h]
    exact (adds_enterOrigin source).trans (adds_layAll horigin covers)
  · exact (adds_enterOrigin source).trans (h.adds not_tearsAxes horigin covers)

theorem adds_parseAll (sources : List Source) (m : Memory) :
    Adds (sources.flatMap fun source => source.entries.fields) m (m.parseAll sources) := by
  induction sources generalizing m with
  | nil => exact .refl _ m
  | cons source rest ih =>
    exact ((adds_parse source m).mono (List.subset_append_left _ _)).trans
      ((ih _).mono (List.subset_append_right _ _))

/-- A field that came by some passes came by one of them. -/
theorem exists_pass {sources : List Source} {f : Field}
    (h : f ∈ (m.parseAll sources).graph.fields) (hnew : f ∉ m.graph.fields) :
    ∃ before source after, sources = before ++ source :: after ∧
      f ∉ (m.parseAll before).graph.fields ∧
      f ∈ (m.parseAll (before ++ [source])).graph.fields := by
  induction sources generalizing m with
  | nil => exact absurd h hnew
  | cons source rest ih =>
    by_cases hone : f ∈ (Session.parse source m).2.graph.fields
    · exact ⟨[], source, rest, rfl, hnew, hone⟩
    · obtain ⟨before, last, after, rfl, hbefore, hlast⟩ := ih h hone
      exact ⟨source :: before, last, after, rfl, hbefore, hlast⟩

theorem tidy_parseAll (sources : List Source) : ∃ l, (({} : Memory).parseAll sources).Tidy l := by
  obtain ⟨l, -, -, h, -⟩ := adds_parseAll sources {} {} tidy_empty
  exact ⟨l, h⟩

end Memory

namespace Graph

/-- What a field says of its extents are the axes of its list. -/
theorem Whole.axes_of_read {g : Graph} (h : g.Whole) {f : Field} (hf : f ∈ g.fields)
    {key : MemberKey} {content : FieldContent} (hread : g.readField f = some (key, content))
    {list : ListId} (hlist : f.dimensions = some list) :
    content.extents ≠ [] ∧ g.axesOf list = content.extents.zipIdx := by
  have hextents : content.extents = g.extentsOf (some list) := by
    obtain ⟨owner, -, hread⟩ := Option.bind_eq_some_iff.mp hread
    obtain ⟨type, -, hread⟩ := Option.bind_eq_some_iff.mp hread
    cases hread
    rw [← hlist]
  rw [hextents]
  exact h.axes list (mem_fieldLists.mpr ⟨f, hf, hlist⟩)

end Graph

/-! ## The law -/

/-- Whatever sources are parsed one after another, and however the calls end: each field came by one
of the passes, and where its source is coherent it is the row of a member of that source. If it has
a list, the axes of the list are the extents of the arrays that the member nests by value, at the
places from zero on, and there is one at least. Each axis is in the list of exactly one field. -/
theorem every_array_field_has_its_axes_and_every_axis_its_field (sources : List Source) :
    let g := (({} : Memory).parseAll sources).graph
    (∀ f ∈ g.fields, ∃ before source after key content,
      sources = before ++ source :: after ∧
      f ∉ (({} : Memory).parseAll before).graph.fields ∧
      f ∈ (({} : Memory).parseAll (before ++ [source])).graph.fields ∧
      g.readField f = some (key, content) ∧
      (source.Coherent → ∃ m, RowOf source m key content) ∧
      ∀ list, f.dimensions = some list →
        content.extents ≠ [] ∧ g.axesOf list = content.extents.zipIdx) ∧
    ∀ d ∈ g.dimensions, ∃! f, f ∈ g.fields ∧ f.dimensions = some d.list := by
  intro g
  obtain ⟨_, -, whole⟩ := Memory.tidy_parseAll sources
  refine ⟨fun f hf => ?_, fun d hd => ?_⟩
  · obtain ⟨before, source, after, rfl, hbefore, hcame⟩ := Memory.exists_pass hf nofun
    obtain ⟨_, tidyBefore⟩ := Memory.tidy_parseAll before
    obtain ⟨_, tidyBehind⟩ := Memory.tidy_parseAll (before ++ [source])
    have hpass : Memory.Adds source.entries.fields (({} : Memory).parseAll before)
        (({} : Memory).parseAll (before ++ [source])) := by
      rw [Memory.parseAll_append]
      exact Memory.adds_parse source _
    have hrest : Memory.Adds _ (({} : Memory).parseAll (before ++ [source])) _ :=
      Memory.adds_parseAll after _
    rw [← Memory.parseAll_append, List.append_assoc, List.singleton_append] at hrest
    obtain ⟨⟨key, content⟩, hentry, hread⟩ := (hpass.reads tidyBefore).2 f hcame hbefore
    have hread := ((hrest.reads tidyBehind).1 f hcame).2.trans hread
    refine ⟨before, source, after, key, content, rfl, hbefore, hcame, hread, fun coherent => ?_,
      fun list hlist => whole.axes_of_read hf hread hlist⟩
    obtain ⟨step, hstep, heq⟩ := mem_fields_entriesOf.mp hentry
    cases heq
    exact rowOf_of_mem_steps coherent hstep
  · obtain ⟨f, hf, hlist⟩ := Graph.mem_fieldLists.mp (whole.owned d hd)
    exact ⟨f, ⟨hf, hlist⟩, fun other h => Graph.eq_of_list whole.once h.1 hf h.2 hlist⟩

theorem grid_coherent : grid.Coherent := by
  refine Source.coherent_of_own fun id e h => ?_
  unfold grid at h
  dsimp only at h
  split_ifs at h <;> cases h <;> rfl

theorem point_coherent (origin : String) (offset : Nat) (type : EntryId) :
    (point origin offset type).Coherent := by
  refine Source.coherent_of_own fun id e h => ?_
  unfold point at h
  dsimp only at h
  split_ifs at h <;> cases h <;> rfl

/-- The grid is parsed again behind a pass that fails. Its second pass takes a list for nothing, and
the field of the first keeps its two axes. -/
theorem a_grid_keeps_its_axes :
    let sources := [grid, point "b.o" 4 ⟨9⟩, grid]
    let g := (({} : Memory).parseAll sources).graph
    (({} : Memory).parseAll sources).lists.last = 2 ∧ g.axesOf ⟨1⟩ = [(3, 0), (2, 1)] ∧
    g.axesOf ⟨2⟩ = [] ∧ ∃ f ∈ g.fields, f.dimensions = some ⟨1⟩ ∧
      ∃ source ∈ sources, ∃ m key content, g.readField f = some (key, content) ∧
        RowOf source m key content ∧ content.extents ≠ [] ∧
        g.axesOf ⟨1⟩ = content.extents.zipIdx := by
  intro sources g
  obtain ⟨f, hf, hlist⟩ : ∃ f ∈ g.fields, f.dimensions = some ⟨1⟩ := by decide +kernel
  obtain ⟨before, source, after, key, content, hsources, -, -, hread, hmember, haxes⟩ :=
    (every_array_field_has_its_axes_and_every_axis_its_field sources).1 f hf
  have hsource : source ∈ sources := by
    rw [hsources]
    simp
  have coherent : ∀ source ∈ sources, source.Coherent := by
    simp [sources, grid_coherent, point_coherent]
  obtain ⟨m, hrow⟩ := hmember (coherent source hsource)
  exact ⟨by decide +kernel, by decide +kernel, by decide +kernel, f, hf, hlist, source, hsource, m,
    key, content, hread, hrow, haxes _ hlist⟩

end LayoutGraph
