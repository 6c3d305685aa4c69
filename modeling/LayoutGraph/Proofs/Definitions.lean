-- The law of definitions. The index of definitions is made in one pass that
-- enters an id where there is none and replaces it by a lower one. So whatever
-- the order of the entries, a kind and a name have their definition with the
-- lowest id, a declaration is answered with it, and the answer is its own.
import LayoutGraph.Definitions
import LayoutGraph.Proofs.Source.Coherent

namespace LayoutGraph

/-! ## The lowest definition -/

/-- Of the entries that define the type of a kind and a name, this one has the lowest id. -/
structure LowestDefinition (entries : List Entry) (kind : DefinitionKind) (name : String)
    (d : Entry) : Prop where
  mem : d ∈ entries
  defines : d.defines kind name = true
  least : ∀ e ∈ entries, e.defines kind name = true → d.id.raw ≤ e.id.raw

namespace LowestDefinition

variable {entries order : List Entry} {kind : DefinitionKind} {name : String} {d e : Entry}

theorem perm (h : LowestDefinition order kind name d) (any : order.Perm entries) :
    LowestDefinition entries kind name d where
  mem := any.mem_iff.mp h.mem
  defines := h.defines
  least e he hdefines := h.least e (any.mem_iff.mpr he) hdefines

theorem unique (once : (entries.map Entry.id).Nodup) (hd : LowestDefinition entries kind name d)
    (he : LowestDefinition entries kind name e) : d = e := by
  have hde := hd.least e he.mem he.defines
  have hed := he.least d hd.mem hd.defines
  have hid : d.id = e.id := congrArg EntryId.mk (Nat.le_antisymm hde hed)
  exact List.inj_on_of_nodup_map once hd.mem he.mem hid

end LowestDefinition

namespace Image

/-! ## The lowest of a list -/

theorem foldl_lower_some (entries : List Entry) (b : Entry) :
    ∃ d, entries.foldl lower (some b) = some d := by
  induction entries generalizing b with
  | nil => exact ⟨b, rfl⟩
  | cons e rest ih =>
    simp only [List.foldl_cons, lower]
    split
    · exact ih e
    · exact ih b

/-- What a fold settles on is no higher than what it started with and than all it came across. -/
theorem foldl_lower_le {entries : List Entry} {start : Option Entry} {d : Entry}
    (h : entries.foldl lower start = some d) :
    (∀ b, start = some b → d.id.raw ≤ b.id.raw) ∧ ∀ e ∈ entries, d.id.raw ≤ e.id.raw := by
  induction entries generalizing start with
  | nil =>
    constructor
    · intro b hb
      rw [hb] at h
      cases h
      exact Nat.le_refl _
    · intro e he
      cases he
  | cons first rest ih =>
    obtain ⟨hstart, hrest⟩ := ih h
    cases start with
    | none =>
      have hfirst := hstart first rfl
      refine ⟨nofun, ?_⟩
      intro e he
      rcases List.mem_cons.mp he with rfl | he
      · exact hfirst
      · exact hrest e he
    | some b =>
      -- Whichever of the two was taken, it is no higher than the other.
      have hboth : d.id.raw ≤ b.id.raw ∧ d.id.raw ≤ first.id.raw := by
        by_cases hless : first.id.raw < b.id.raw
        · have hfirst := hstart first (by simp [lower, hless])
          omega
        · have hb := hstart b (by simp [lower, hless])
          omega
      constructor
      · intro other hother
        cases hother
        exact hboth.1
      · intro e he
        rcases List.mem_cons.mp he with rfl | he
        · exact hboth.2
        · exact hrest e he

section

variable {entries : List Entry} {kind : DefinitionKind} {name : String} {d : Entry}

theorem lowestDefinition_of_foldl
    (h : (entries.filter (Entry.defines kind name)).foldl lower none = some d) :
    LowestDefinition entries kind name d := by
  rcases mem_of_foldl_lower h with hmem | hnone
  · obtain ⟨hentries, hdefines⟩ := List.mem_filter.mp hmem
    refine ⟨hentries, hdefines, ?_⟩
    intro e he hother
    exact (foldl_lower_le h).2 e (List.mem_filter.mpr ⟨he, hother⟩)
  · cases hnone

theorem foldl_lower_eq_none_iff :
    (entries.filter (Entry.defines kind name)).foldl lower none = none ↔
      ∀ e ∈ entries, e.defines kind name = false := by
  cases hfilter : entries.filter (Entry.defines kind name) with
  | nil => simpa using List.filter_eq_nil_iff.mp hfilter
  | cons first rest =>
    have hfirst : first ∈ entries.filter (Entry.defines kind name) := by simp [hfilter]
    obtain ⟨hmem, hdefines⟩ := List.mem_filter.mp hfirst
    obtain ⟨d, hd⟩ := foldl_lower_some rest first
    apply iff_of_false
    · rw [List.foldl_cons, lower, hd]
      simp
    · intro hno
      rw [hno first hmem] at hdefines
      cases hdefines

theorem foldl_lower_eq_some_iff (once : (entries.map Entry.id).Nodup) :
    (entries.filter (Entry.defines kind name)).foldl lower none = some d ↔
      LowestDefinition entries kind name d := by
  constructor
  · exact lowestDefinition_of_foldl
  · intro hd
    cases hfold : (entries.filter (Entry.defines kind name)).foldl lower none with
    | none =>
      have hno := foldl_lower_eq_none_iff.mp hfold d hd.mem
      rw [hd.defines] at hno
      cases hno
    | some other => rw [hd.unique once (lowestDefinition_of_foldl hfold)]

end

end Image

/-! ## The index -/

namespace DefinitionIndex

variable {index : DefinitionIndex} {kind : DefinitionKind} {name : String}

theorem find?_enter (index : DefinitionIndex) (kind k : DefinitionKind) (name n : String)
    (id : EntryId) :
    (index.enter kind name id).find? k n =
      if k = kind ∧ n = name then
        let slot := (index.find? kind name).getD id
        some (if id.raw < slot.raw then id else slot)
      else index.find? k n := by
  unfold enter find?
  rw [Index.find?_insert]
  by_cases hkind : k = kind
  · subst hkind
    rw [if_pos rfl, Option.bind_some, Index.find?_insert]
    cases index.kinds.find? k <;> simp
  · simp [hkind]

theorem find?_add_of_defines {e : Entry} (h : e.defines kind name = true) :
    (index.add e).find? kind name =
      some (if e.id.raw < ((index.find? kind name).getD e.id).raw then e.id
        else (index.find? kind name).getD e.id) := by
  obtain ⟨hkind, hname, hnamed, hdefinition⟩ := Entry.defines_iff.mp h
  simp [add, hkind, hname, hnamed, hdefinition, find?_enter]

theorem find?_add_of_not_defines {e : Entry} (h : e.defines kind name = false) :
    (index.add e).find? kind name = index.find? kind name := by
  unfold add
  split
  · rename_i k n hkind hdefinition hname
    split
    · rfl
    · rename_i hnamed
      rw [find?_enter, if_neg]
      rintro ⟨rfl, rfl⟩
      rw [Entry.defines_iff.mpr ⟨hkind, hname, hnamed, hdefinition⟩] at h
      cases h
  · rfl

/-- One turn of the pass: the id in the index stays that of the lowest definition come across. -/
theorem find?_add {best : Option Entry} (h : index.find? kind name = best.map Entry.id)
    (e : Entry) :
    (index.add e).find? kind name =
      (if e.defines kind name then Image.lower best e else best).map Entry.id := by
  by_cases hdefines : e.defines kind name = true
  · rw [find?_add_of_defines hdefines, if_pos hdefines, h]
    cases best with
    | none => simp [Image.lower]
    | some b =>
      by_cases hless : e.id.raw < b.id.raw
      · simp [Image.lower, hless]
      · simp [Image.lower, hless]
  · rw [if_neg hdefines, ← h]
    exact find?_add_of_not_defines (by simpa using hdefines)

theorem find?_foldl_add {best : Option Entry} (entries : List Entry)
    (h : index.find? kind name = best.map Entry.id) :
    (entries.foldl add index).find? kind name =
      ((entries.filter (Entry.defines kind name)).foldl Image.lower best).map Entry.id := by
  induction entries generalizing index best with
  | nil => exact h
  | cons e rest ih =>
    rw [List.foldl_cons, ih (find?_add h e), List.filter_cons]
    by_cases hdefines : e.defines kind name = true
    · simp [hdefines]
    · simp [hdefines]

theorem find?_ofEntries (entries : List Entry) (kind : DefinitionKind) (name : String) :
    (ofEntries entries).find? kind name =
      ((entries.filter (Entry.defines kind name)).foldl Image.lower none).map Entry.id :=
  find?_foldl_add entries rfl

section

variable {entries order : List Entry} (once : (entries.map Entry.id).Nodup)
  (any : order.Perm entries)

include any in
theorem find?_ofEntries_eq_none_iff :
    (ofEntries order).find? kind name = none ↔ ∀ e ∈ entries, e.defines kind name = false := by
  rw [find?_ofEntries, Option.map_eq_none_iff, Image.foldl_lower_eq_none_iff]
  constructor
  · intro hno e he
    exact hno e (any.mem_iff.mpr he)
  · intro hno e he
    exact hno e (any.mem_iff.mp he)

include once any in
theorem find?_ofEntries_eq_some_iff {id : EntryId} :
    (ofEntries order).find? kind name = some id ↔
      ∃ d, LowestDefinition entries kind name d ∧ d.id = id := by
  have onceInOrder : (order.map Entry.id).Nodup := (any.map Entry.id).nodup_iff.mpr once
  rw [find?_ofEntries, Option.map_eq_some_iff]
  constructor
  · rintro ⟨d, hfold, hid⟩
    exact ⟨d, ((Image.foldl_lower_eq_some_iff onceInOrder).mp hfold).perm any, hid⟩
  · rintro ⟨d, hlowest, hid⟩
    exact ⟨d, (Image.foldl_lower_eq_some_iff onceInOrder).mpr (hlowest.perm any.symm), hid⟩

end

end DefinitionIndex

/-! ## Answers -/

namespace Image

/-- What answers for an entry: the definition of its kind and name with the lowest id if it is a
declaration and there is one, and otherwise the entry. -/
inductive AnswersFor (image : Image) (e : Entry) : Entry → Prop
  | definition {kind : DefinitionKind} {name : String} {d : Entry} :
    e.isDeclaration = true → e.definitionKind? = some kind → e.name = some name →
    LowestDefinition image.entries kind name d → AnswersFor image e d
  | itself :
    (∀ kind name, e.isDeclaration = true → e.definitionKind? = some kind → e.name = some name →
      ∀ d ∈ image.entries, d.defines kind name = false) → AnswersFor image e e

variable {image : Image} {order : List Entry} (once : (image.entries.map Entry.id).Nodup)

theorem definition?_eq_none_iff {kind : DefinitionKind} {name : String} :
    image.definition? kind name = none ↔ ∀ e ∈ image.entries, e.defines kind name = false :=
  foldl_lower_eq_none_iff

include once

theorem definition?_eq_some_iff {kind : DefinitionKind} {name : String} {d : Entry} :
    image.definition? kind name = some d ↔ LowestDefinition image.entries kind name d :=
  foldl_lower_eq_some_iff once

theorem answersFor_iff {e d : Entry} : image.AnswersFor e d ↔ image.answer e = d := by
  constructor
  · rintro (⟨hdeclaration, hkind, hname, hlowest⟩ | ⟨hnone⟩)
    · simp [answer, hdeclaration, hkind, hname, (definition?_eq_some_iff once).mpr hlowest]
    · unfold answer
      split
      · rename_i kind name hdeclaration hkind hname
        have hno := hnone kind name hdeclaration hkind hname
        rw [definition?_eq_none_iff.mpr hno, Option.getD_none]
      · rfl
  · rintro rfl
    unfold answer
    split
    · rename_i kind name hdeclaration hkind hname
      cases hdefinition : image.definition? kind name with
      | none =>
        apply AnswersFor.itself
        intro k n _ hk hn
        cases hkind.symm.trans hk
        cases hname.symm.trans hn
        exact definition?_eq_none_iff.mp hdefinition
      | some d =>
        have hlowest := (definition?_eq_some_iff once).mp hdefinition
        exact .definition hdeclaration hkind hname hlowest
    · rename_i hno
      apply AnswersFor.itself
      intro kind name hdeclaration hkind hname
      exact absurd hname (hno kind name hdeclaration hkind)

variable (any : order.Perm image.entries)

include any

theorem find?_ofEntries_eq (kind : DefinitionKind) (name : String) :
    (DefinitionIndex.ofEntries order).find? kind name =
      (image.definition? kind name).map Entry.id := by
  apply Option.ext
  intro id
  rw [DefinitionIndex.find?_ofEntries_eq_some_iff once any, Option.map_eq_some_iff]
  simp only [definition?_eq_some_iff once]

/-- The index has the id of the definition, and under its id the definition is found. -/
theorem definitionBy?_getD (e : Entry) :
    (image.definitionBy? (.ofEntries order) e).getD e = image.answer e := by
  unfold definitionBy? answer
  rcases e.definitionKind? with _ | kind <;> rcases e.isDeclaration with _ | _ <;>
    rcases e.name with _ | name <;> try rfl
  dsimp only
  rw [find?_ofEntries_eq once any]
  cases hdefinition : image.definition? kind name with
  | none => rfl
  | some d =>
    have hlowest := (definition?_eq_some_iff once).mp hdefinition
    simp [decoded?_of_mem once hlowest.mem]

theorem entryBy_eq (id : EntryId) :
    image.entryBy (.ofEntries order) id = image.toSource.entry id := by
  unfold entryBy
  cases hdecoded : image.decoded? id with
  | none => rw [entry_of_not_decoded hdecoded]
  | some e =>
    rw [entry_of_decoded hdecoded]
    exact congrArg Except.ok (definitionBy?_getD once any e)

omit any

theorem entry_eq_ok_iff {id : EntryId} {d : Entry} :
    image.toSource.entry id = .ok d ↔ ∃ e ∈ image.entries, e.id = id ∧ image.AnswersFor e d := by
  constructor
  · intro h
    cases hdecoded : image.decoded? id with
    | none =>
      rw [entry_of_not_decoded hdecoded] at h
      cases h
    | some e =>
      rw [entry_of_decoded hdecoded] at h
      cases h
      obtain ⟨he, hid⟩ := (decoded?_eq_some_iff once).mp hdecoded
      exact ⟨e, he, hid, (answersFor_iff once).mpr rfl⟩
  · rintro ⟨e, he, hid, hanswers⟩
    have hdecoded := (decoded?_eq_some_iff once).mpr ⟨he, hid⟩
    rw [entry_of_decoded hdecoded, (answersFor_iff once).mp hanswers]

/-- What answers for an id answers for its own. -/
theorem entry_idempotent {id : EntryId} {d : Entry} (h : image.toSource.entry id = .ok d) :
    image.toSource.entry d.id = .ok d := by
  obtain ⟨e, he, -, hanswers⟩ := (entry_eq_ok_iff once).mp h
  have hanswer := (answersFor_iff once).mp hanswers
  rcases image.answer_cases e with hself | ⟨hmem, hself⟩
  · rw [hself] at hanswer
    subst hanswer
    rw [entry_of_decoded (decoded?_of_mem once he), hself]
  · rw [hanswer] at hmem hself
    rw [entry_of_decoded (decoded?_of_mem once hmem), hself]

omit once

theorem entry_eq_error_iff {id : EntryId} {fault : Failure} :
    image.toSource.entry id = .error fault ↔
      fault = .unresolved id ∧ ∀ e ∈ image.entries, e.id ≠ id := by
  rw [← decoded?_eq_none_iff]
  constructor
  · intro h
    cases hdecoded : image.decoded? id with
    | none =>
      rw [entry_of_not_decoded hdecoded] at h
      cases h
      exact ⟨rfl, rfl⟩
    | some e =>
      rw [entry_of_decoded hdecoded] at h
      cases h
  · rintro ⟨rfl, hdecoded⟩
    exact entry_of_not_decoded hdecoded

/-! ## The law -/

/-- Whichever order the entries of an image come in when the index of definitions is made, the index
has for a kind and a name the lowest id of the entries that define it, and none where there are
none. The look-up of an id by way of the index fails just when no entry has the id; else it gives
the definition with the lowest id for a declaration that has one, and the entry itself for every
other; and the id of what it gives leads to the same entry again. It is the look-up that a pass
makes. -/
theorem definitions_are_found_in_any_order (image : Image)
    (once : (image.entries.map Entry.id).Nodup) (order : List Entry)
    (any : order.Perm image.entries) :
    let index := DefinitionIndex.ofEntries order
    (∀ kind name id, index.find? kind name = some id ↔
      ∃ d, LowestDefinition image.entries kind name d ∧ d.id = id) ∧
    (∀ kind name, index.find? kind name = none ↔
      ∀ e ∈ image.entries, e.defines kind name = false) ∧
    (∀ id fault, image.entryBy index id = .error fault ↔
      fault = .unresolved id ∧ ∀ e ∈ image.entries, e.id ≠ id) ∧
    (∀ id d, image.entryBy index id = .ok d ↔
      ∃ e ∈ image.entries, e.id = id ∧ image.AnswersFor e d) ∧
    (∀ id d, image.entryBy index id = .ok d → image.entryBy index d.id = .ok d) ∧
    image.entryBy index = image.toSource.entry := by
  intro index
  have same : image.entryBy index = image.toSource.entry := funext (entryBy_eq once any)
  refine ⟨?_, ?_, ?_, ?_, ?_, same⟩
  · intro kind name id
    exact DefinitionIndex.find?_ofEntries_eq_some_iff once any
  · intro kind name
    exact DefinitionIndex.find?_ofEntries_eq_none_iff any
  · intro id fault
    rw [same]
    exact entry_eq_error_iff
  · intro id d
    rw [same]
    exact entry_eq_ok_iff once
  · intro id d h
    rw [same] at h ⊢
    exact entry_idempotent once h

/-- A struct that is declared and defined twice, a union of its name, an enumeration that is defined
behind its declaration, and a struct that is declared only. -/
def scattered : Image where
  origin := "scattered.o"
  littleEndian := true
  entries := [
    ⟨⟨1⟩, some "Node", none, .compound .struct [] true⟩,
    ⟨⟨2⟩, some "Node", some 4, .compound .union [] false⟩,
    ⟨⟨3⟩, some "Color", none, .enumeration []⟩,
    ⟨⟨4⟩, some "Node", some 8, .compound .struct [] false⟩,
    ⟨⟨5⟩, some "Node", some 16, .compound .struct [] false⟩,
    ⟨⟨6⟩, some "Color", none, .enumeration [⟨"RED", 0⟩]⟩,
    ⟨⟨7⟩, some "Lost", none, .compound .struct [] true⟩]
  topLevel := []

/-- The index is made from the last entry to the first. -/
theorem scattered_definitions_are_found_from_behind :
    let index := DefinitionIndex.ofEntries scattered.entries.reverse
    let node : Entry := ⟨⟨4⟩, some "Node", some 8, .compound .struct [] false⟩
    let color : Entry := ⟨⟨6⟩, some "Color", none, .enumeration [⟨"RED", 0⟩]⟩
    let lost : Entry := ⟨⟨7⟩, some "Lost", none, .compound .struct [] true⟩
    (scattered.entries.map Entry.id).Nodup ∧
    scattered.entries.reverse.Perm scattered.entries ∧
    index.find? (.compound .struct) "Node" = some ⟨4⟩ ∧
    index.find? (.compound .struct) "Lost" = none ∧
    scattered.entryBy index ⟨8⟩ = .error (.unresolved ⟨8⟩) ∧
    scattered.entryBy index ⟨1⟩ = .ok node ∧ scattered.entryBy index ⟨4⟩ = .ok node ∧
    scattered.entryBy index ⟨3⟩ = .ok color ∧ scattered.entryBy index ⟨7⟩ = .ok lost := by
  intro index node color lost
  have once : (scattered.entries.map Entry.id).Nodup := by decide
  have any : scattered.entries.reverse.Perm scattered.entries := List.reverse_perm _
  obtain ⟨found, absent, fails, gives, again, -⟩ :=
    definitions_are_found_in_any_order scattered once _ any
  have hnode : LowestDefinition scattered.entries (.compound .struct) "Node" node :=
    ⟨by decide, by decide, by decide⟩
  have hcolor : LowestDefinition scattered.entries .enumeration "Color" color :=
    ⟨by decide, by decide, by decide⟩
  have hanswer : scattered.entryBy index ⟨1⟩ = .ok node :=
    (gives _ _).mpr ⟨_, List.mem_cons_self, rfl, .definition rfl rfl rfl hnode⟩
  refine ⟨once, any, (found _ _ _).mpr ⟨node, hnode, rfl⟩, (absent _ _).mpr (by decide),
    (fails _ _).mpr ⟨rfl, by decide⟩, hanswer, again _ _ hanswer, ?_, ?_⟩
  · apply (gives _ _).mpr
    exact ⟨⟨⟨3⟩, some "Color", none, .enumeration []⟩, by decide, rfl, .definition rfl rfl rfl hcolor⟩
  · apply (gives _ _).mpr
    refine ⟨lost, by decide, rfl, .itself ?_⟩
    intro kind name _ hkind hname
    cases hkind
    cases hname
    decide

end Image

end LayoutGraph
