-- Sources are coherent. A listing defines each entry under its own id; an
-- image answers a declaration with its definition, and the definition is
-- found under its own id and answers for itself.
import LayoutGraph.Image
import LayoutGraph.Proofs.Ledger.Table
import LayoutGraph.Proofs.Source.Reachable
import LayoutGraph.Source.Listing

namespace LayoutGraph

/-- Entries that are found under their own ids alone are found under them. -/
theorem Source.coherent_of_own {source : Source}
    (h : ∀ id e, source.find? id = some e → e.id = id) : source.Coherent := by
  intro id e hfind
  rw [h id e hfind]
  exact hfind

/-! ## Listings -/

namespace Listing

/-- Every entry was defined under its own id. -/
def Defined (l : Listing) : Prop := ∀ id e, l.entries.find? id = some e → e.id = id

variable {l : Listing}

theorem defined_empty (origin : String) (littleEndian : Bool) :
    Defined { origin, littleEndian } := nofun

theorem Defined.declare (h : l.Defined) : l.declare.2.Defined := h

theorem Defined.define (h : l.Defined) (id : EntryId) (name : Option String)
    (byteSize : Option Nat) (kind : EntryKind) : (l.define id name byteSize kind).Defined := by
  intro other e he
  have he : (l.entries.insert id ⟨id, name, byteSize, kind⟩).find? other = some e := he
  rw [Index.find?_insert] at he
  split at he
  · rename_i heq
    cases he
    exact heq.symm
  · exact h other e he

theorem Defined.add (h : l.Defined) (name : Option String) (byteSize : Option Nat)
    (kind : EntryKind) : (l.add name byteSize kind).2.Defined :=
  h.declare.define _ name byteSize kind

theorem Defined.coherent (h : l.Defined) : l.toSource.Coherent := Source.coherent_of_own h

theorem named_toSource (h : ∀ entry ∈ l.entries.pairs, entry.2.awaitsName = false) :
    l.toSource.Named := by
  rintro e ⟨id, -, hfind⟩
  exact h (id, e) (Table.mem_of_lookup hfind)

end Listing

/-! ## Images -/

/-- A definition is no declaration, has a kind and has a name. -/
theorem Entry.defines_iff {kind : DefinitionKind} {name : String} {e : Entry} :
    e.defines kind name = true ↔
      e.definitionKind? = some kind ∧ e.name = some name ∧ name ≠ "" ∧
        e.isDeclaration = false := by
  simp [defines, and_assoc]

namespace Image

theorem mem_of_foldl_lower {entries : List Entry} {start : Option Entry} {e : Entry}
    (h : entries.foldl lower start = some e) : e ∈ entries ∨ start = some e := by
  induction entries generalizing start with
  | nil => exact .inr h
  | cons first rest ih =>
    rcases ih h with hmem | hlower
    · exact .inl (List.mem_cons_of_mem _ hmem)
    · unfold lower at hlower
      split at hlower
      · split at hlower
        · cases hlower
          exact .inl List.mem_cons_self
        · exact .inr hlower
      · cases hlower
        exact .inl List.mem_cons_self

/-- A definition is an entry of the image that defines what was asked for. -/
theorem definition?_eq_some {image : Image} {kind : DefinitionKind} {name : String} {e : Entry}
    (h : image.definition? kind name = some e) :
    e ∈ image.entries ∧ e.definitionKind? = some kind ∧ e.isDeclaration = false := by
  rcases mem_of_foldl_lower h with hmem | hnone
  · obtain ⟨hentries, hdefines⟩ := List.mem_filter.mp hmem
    obtain ⟨hkind, -, -, hdefinition⟩ := Entry.defines_iff.mp hdefines
    exact ⟨hentries, hkind, hdefinition⟩
  · cases hnone

theorem answer_of_not_declaration (image : Image) {e : Entry} (h : e.isDeclaration = false) :
    image.answer e = e := by
  simp [answer, h]

/-- What answers for an entry is the entry, or an entry of the image that answers for itself. -/
theorem answer_cases (image : Image) (e : Entry) :
    image.answer e = e ∨ image.answer e ∈ image.entries ∧
      image.answer (image.answer e) = image.answer e := by
  unfold answer
  split
  · rename_i kind name hdeclaration hkind hname
    cases hdefinition : image.definition? kind name with
    | none => exact .inl rfl
    | some d =>
      obtain ⟨hmem, -, hnot⟩ := definition?_eq_some hdefinition
      exact .inr ⟨hmem, image.answer_of_not_declaration hnot⟩
  · exact .inl rfl

theorem decoded?_of_mem {image : Image} (once : (image.entries.map Entry.id).Nodup) {e : Entry}
    (h : e ∈ image.entries) : image.decoded? e.id = some e := by
  unfold decoded?
  generalize image.entries = entries at once h
  induction entries with
  | nil => cases h
  | cons first rest ih =>
    obtain ⟨hnot, once⟩ := List.nodup_cons.mp once
    rcases List.mem_cons.mp h with rfl | h
    · simp
    · have hne : first.id ≠ e.id := fun heq => hnot (heq ▸ List.mem_map_of_mem h)
      rw [List.find?_cons_of_neg (by simpa using hne)]
      exact ih once h

theorem decoded?_eq_some_iff {image : Image} (once : (image.entries.map Entry.id).Nodup)
    {id : EntryId} {e : Entry} : image.decoded? id = some e ↔ e ∈ image.entries ∧ e.id = id := by
  constructor
  · intro h
    exact ⟨List.mem_of_find?_eq_some h, by simpa using List.find?_some h⟩
  · rintro ⟨he, rfl⟩
    exact decoded?_of_mem once he

theorem decoded?_eq_none_iff {image : Image} {id : EntryId} :
    image.decoded? id = none ↔ ∀ e ∈ image.entries, e.id ≠ id := by
  simp [decoded?]

theorem entry_of_decoded {image : Image} {id : EntryId} {e : Entry}
    (h : image.decoded? id = some e) : image.toSource.entry id = .ok (image.answer e) := by
  have hfound : image.toSource.find? id = some (image.answer e) :=
    congrArg (Option.map image.answer) h
  unfold Source.entry
  rw [hfound]

theorem entry_of_not_decoded {image : Image} {id : EntryId} (h : image.decoded? id = none) :
    image.toSource.entry id = .error (.unresolved id) := by
  have hfound : image.toSource.find? id = none := congrArg (Option.map image.answer) h
  unfold Source.entry
  rw [hfound]

theorem coherent_toSource {image : Image} (once : (image.entries.map Entry.id).Nodup) :
    image.toSource.Coherent := by
  intro id e hfind
  obtain ⟨d, hd, rfl⟩ := Option.map_eq_some_iff.mp hfind
  rcases image.answer_cases d with hself | ⟨hmem, hself⟩
  · obtain ⟨-, hid⟩ := (decoded?_eq_some_iff once).mp hd
    rw [hself, hid]
    exact hself ▸ hfind
  · show (image.decoded? (image.answer d).id).map image.answer = some (image.answer d)
    rw [decoded?_of_mem once hmem, Option.map_some, hself]

end Image

end LayoutGraph
