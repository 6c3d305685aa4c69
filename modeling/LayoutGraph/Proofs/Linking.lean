-- The law of linking: where a section stores zeros and a relocation carries
-- the number, the reader finds what it finds in the linked section. It looks
-- the relocation up only where it takes an offset or an address, so the law
-- needs that it reads those bytes in no other way.
import LayoutGraph.Image
import LayoutGraph.Proofs.Ledger.Table

namespace LayoutGraph.Dwarf

/-! ## Scripts -/

namespace Script

variable {α : Type} {a b : Sections}

/-- Sections that a script cannot tell apart by its looks come to the same. -/
theorem run_of_agree (size : ∀ part, (b.part part).bytes.size = (a.part part).bytes.size)
    (script : Script α) (agree : ∀ l ∈ script.looks a, b.find? l = a.find? l) :
    script.run b = script.run a := by
  induction script with
  | done value => rfl
  | look l next ih =>
    have here : b.find? l = a.find? l := agree l List.mem_cons_self
    show (next (b.find? l)).run b = (next (a.find? l)).run a
    rw [here]
    exact ih _ fun other hother => agree other (List.mem_cons_of_mem _ hother)
  | size part next ih =>
    show (next (b.part part).bytes.size).run b = (next (a.part part).bytes.size).run a
    rw [size part]
    exact ih _ agree

end Script

/-! ## Positions -/

/-- Bytes of a section in which a number is stored. -/
structure Position where
  part : Part
  place : Nat
  count : Nat
deriving DecidableEq, Repr

namespace Position

/-- The look that takes the number as an offset or an address. -/
def look (p : Position) : Look := ⟨p.part, p.place, p.count, true⟩

def holds (p : Position) (place : Nat) : Bool :=
  decide (p.place ≤ place) && decide (place < p.place + p.count)

/-- The bytes of the position and those of a look meet: one starts within the other. -/
def Meets (p : Position) (l : Look) : Prop :=
  p.place ≤ l.place ∧ l.place < p.place + p.count ∨
    l.place ≤ p.place ∧ p.place < l.place + l.count

instance (p : Position) (l : Look) : Decidable (p.Meets l) := inferInstanceAs (Decidable (_ ∨ _))

end Position

/-- The section with zeros at positions of it, and with relocations that carry what was stored. -/
def Section.unlink (s : Section) (positions : List Position) : Section where
  bytes := s.bytes.mapIdx fun place byte => if positions.any (·.holds place) then 0 else byte
  littleEndian := s.littleEndian
  relocations := positions.map fun p =>
    (p.place, ⟨(Bytes.numberAt? s.bytes s.littleEndian p.place p.count).getD 0, false⟩)

/-- The sections with zeros and relocations at positions. -/
def Sections.unlink (sections : Sections) (positions : List Position) : Sections :=
  let of (part : Part) := positions.filter fun p => p.part = part
  { info := sections.info.unlink (of .info)
    types := sections.types.unlink (of .types)
    abbreviations := sections.abbreviations.unlink (of .abbreviations)
    text := sections.text.unlink (of .text)
    lineText := sections.lineText.unlink (of .lineText)
    textOffsets := sections.textOffsets.unlink (of .textOffsets)
    addresses := sections.addresses.unlink (of .addresses)
    lines := sections.lines.unlink (of .lines) }

/-- No section has relocations. -/
def Sections.Linked (sections : Sections) : Prop :=
  ∀ part, (sections.part part).relocations = []

/-- The decoding takes the numbers at the positions as offsets or addresses. -/
def Sections.Takes (sections : Sections) (positions : List Position) : Prop :=
  ∀ p ∈ positions, p.look ∈ sections.looks

/-- It reads their bytes in no other way. -/
def Sections.TakesOnly (sections : Sections) (positions : List Position) : Prop :=
  ∀ p ∈ positions, ∀ l ∈ sections.looks, l.part = p.part → p.Meets l → l = p.look

instance (sections : Sections) (positions : List Position) : Decidable (sections.Takes positions) :=
  inferInstanceAs (Decidable (∀ p ∈ positions, _))

instance (sections : Sections) (positions : List Position) :
    Decidable (sections.TakesOnly positions) :=
  inferInstanceAs (Decidable (∀ p ∈ positions, ∀ l ∈ sections.looks, _))

/-! ## Looks at unlinked sections -/

namespace Section

variable {s : Section} {positions : List Position} {l : Look}

theorem size_unlink : (s.unlink positions).bytes.size = s.bytes.size := Array.size_mapIdx

theorem has_unlink (start count : Nat) :
    Bytes.has (s.unlink positions).bytes start count = Bytes.has s.bytes start count := by
  unfold Bytes.has
  rw [size_unlink]

theorem byte_unlink {place : Nat} (h : place < s.bytes.size)
    (h' : place < (s.unlink positions).bytes.size)
    (apart : ∀ p ∈ positions, p.holds place = false) :
    (s.unlink positions).bytes[place] = s.bytes[place] := by
  have hnone : positions.any (·.holds place) = false := by
    rw [List.any_eq_false]
    intro p hp
    simp [apart p hp]
  simp only [unlink, Array.getElem_mapIdx, hnone, Bool.false_eq_true, if_false]

/-- Where no position meets the look, the bytes are as they were. -/
theorem numberAt?_unlink (apart : ∀ p ∈ positions, ¬ p.Meets l) :
    Bytes.numberAt? (s.unlink positions).bytes s.littleEndian l.place l.count =
      Bytes.numberAt? s.bytes s.littleEndian l.place l.count := by
  have hrun : (s.unlink positions).bytes.extract l.place (l.place + l.count) =
      s.bytes.extract l.place (l.place + l.count) := by
    apply Array.ext
    · rw [Array.size_extract, Array.size_extract, size_unlink]
    · intro i hi _
      rw [Array.size_extract] at hi
      rw [Array.getElem_extract, Array.getElem_extract]
      refine byte_unlink _ _ fun p hp => ?_
      have hmeets := apart p hp
      unfold Position.Meets at hmeets
      simp only [Position.holds, Bool.and_eq_false_iff, decide_eq_false_iff_not]
      omega
  unfold Bytes.numberAt? Bytes.slice?
  rw [has_unlink, hrun]

theorem isSome_numberAt? (bytes : Bytes) (littleEndian : Bool) (start count : Nat) :
    (Bytes.numberAt? bytes littleEndian start count).isSome = bytes.has start count := by
  unfold Bytes.numberAt? Bytes.slice?
  split <;> simp_all

/-- A relocation that is found at the place of a look carries the number of the look. -/
theorem lookup_relocations {r : Relocation} (only : ∀ p ∈ positions, p.Meets l → l = p.look)
    (h : (s.unlink positions).relocations.lookup l.place = some r) :
    r = ⟨(Bytes.numberAt? s.bytes s.littleEndian l.place l.count).getD 0, false⟩ := by
  obtain ⟨p, hp, hr⟩ := List.mem_map.mp (Table.mem_of_lookup h)
  obtain ⟨hplace, rfl⟩ := Prod.mk.inj hr
  have hcount : p.count = l.count := by
    by_cases hmeets : p.Meets l
    · rw [only p hp hmeets]
      rfl
    · -- Two runs from one place that do not meet are both empty.
      unfold Position.Meets at hmeets
      omega
  rw [hplace, hcount]

theorem lookup_relocations_of_mem {p : Position} (hp : p ∈ positions) :
    (s.unlink positions).relocations.lookup p.place ≠ none := by
  intro hnone
  refine Table.lookup_eq_none_iff_not_mem.mp hnone ?_
  unfold unlink
  rw [List.map_map]
  exact List.mem_map_of_mem hp

/-- A look at the unlinked section finds what it finds at the linked one. -/
theorem find?_unlink (linked : s.relocations = [])
    (only : ∀ p ∈ positions, p.Meets l → l = p.look) :
    (s.unlink positions).find? l = s.find? l := by
  have plain (apart : ∀ p ∈ positions, ¬ p.Meets l)
      (unmoved : l.relocates = true → (s.unlink positions).relocations.lookup l.place = none) :
      (s.unlink positions).find? l = s.find? l := by
    have hplain : ∀ stored, (s.unlink positions).relocations.lookup l.place = none →
        (s.unlink positions).relocate l.place stored = s.relocate l.place stored := by
      intro stored hnone
      unfold relocate
      rw [hnone, linked]
      rfl
    unfold find?
    rw [show (s.unlink positions).littleEndian = s.littleEndian from rfl, numberAt?_unlink apart]
    congr 1
    funext stored
    split
    · exact hplain stored (unmoved ‹_›)
    · rfl
  cases hrelocates : l.relocates with
  | false =>
    refine plain (fun p hp hmeets => ?_) fun h => by rw [h] at hrelocates; cases hrelocates
    rw [only p hp hmeets] at hrelocates
    cases hrelocates
  | true =>
    cases hlookup : (s.unlink positions).relocations.lookup l.place with
    | none =>
      refine plain (fun p hp hmeets => ?_) fun _ => hlookup
      have hplace : l.place = p.place := congrArg Look.place (only p hp hmeets)
      exact lookup_relocations_of_mem hp (hplace ▸ hlookup)
    | some r =>
      have hstored (stored : Nat) : (s.unlink positions).relocate l.place stored =
          (Bytes.numberAt? s.bytes s.littleEndian l.place l.count).getD 0 := by
        unfold relocate
        rw [hlookup, lookup_relocations only hlookup]
        rfl
      have hlinked (stored : Nat) : s.relocate l.place stored = stored := by
        unfold relocate
        rw [linked]
        rfl
      have hsome : (Bytes.numberAt? (s.unlink positions).bytes s.littleEndian l.place
          l.count).isSome = (Bytes.numberAt? s.bytes s.littleEndian l.place l.count).isSome := by
        rw [isSome_numberAt?, isSome_numberAt?, has_unlink]
      unfold find?
      rw [show (s.unlink positions).littleEndian = s.littleEndian from rfl]
      simp only [hrelocates, if_true, hstored, hlinked]
      revert hsome
      cases Bytes.numberAt? s.bytes s.littleEndian l.place l.count <;>
        cases Bytes.numberAt? (s.unlink positions).bytes s.littleEndian l.place l.count <;> simp

end Section

/-! ## The law -/

namespace Sections

variable {sections : Sections} {positions : List Position}

theorem part_unlink (part : Part) : (sections.unlink positions).part part =
    (sections.part part).unlink (positions.filter fun p => p.part = part) := by
  cases part <;> rfl

theorem find?_unlink (linked : sections.Linked) (only : sections.TakesOnly positions) {l : Look}
    (h : l ∈ sections.looks) : (sections.unlink positions).find? l = sections.find? l := by
  unfold find?
  rw [part_unlink]
  apply Section.find?_unlink (linked l.part)
  intro p hp
  obtain ⟨hmem, hpart⟩ := List.mem_filter.mp hp
  exact only p hmem l h (of_decide_eq_true hpart).symm

theorem decode_unlink (linked : sections.Linked) (only : sections.TakesOnly positions) :
    (sections.unlink positions).decode = sections.decode := by
  have size (part : Part) : ((sections.unlink positions).part part).bytes.size =
      (sections.part part).bytes.size := by
    rw [part_unlink, Section.size_unlink]
  have hrun := Script.run_of_agree size (Dwarf.decode.run.run #[]) fun l hl =>
    find?_unlink linked only hl
  unfold decode
  rw [hrun]

end Sections

end LayoutGraph.Dwarf

namespace LayoutGraph

open Dwarf

/-- Sections with zeros and relocations at positions where the reader takes nothing but an offset or
an address give the image of the linked sections, whatever the positions are. -/
theorem relocatable_and_linked_sections_decode_alike (origin : String) (littleEndian : Bool)
    {sections : Sections} (linked : sections.Linked) {positions : List Position}
    (only : sections.TakesOnly positions) :
    Image.ofSections origin littleEndian (sections.unlink positions) =
      Image.ofSections origin littleEndian sections := by
  unfold Image.ofSections
  rw [Sections.decode_unlink linked only]

namespace Dwarf

/-- The place of the abbreviations, the name of an integer and the target of a pointer to it. -/
def unitOffsets : List Position := [⟨.info, 6, 4⟩, ⟨.info, 13, 4⟩, ⟨.info, 19, 4⟩]

/-- A unit with an integer and a pointer to it, whose abbreviations do not stand at the start. -/
def pointed : Sections where
  info := { bytes := #[
    20, 0, 0, 0, 4, 0, 1, 0, 0, 0, 8,
    1,
    2, 1, 0, 0, 0, 4,
    3, 12, 0, 0, 0,
    0] }
  abbreviations := { bytes := #[
    0,
    1, 0x11, 1, 0, 0,
    2, 0x24, 0, 0x03, 0x0e, 0x0b, 0x0b, 0, 0,
    3, 0x0f, 0, 0x49, 0x10, 0, 0,
    0] }
  text := { bytes := #[0, 105, 110, 116, 0] }

/-- The entries that sections describe, if they can be decoded. -/
def entriesOf (sections : Sections) : Option (List Entry) :=
  (Image.ofSections "a.o" true sections).1.toOption.map Image.entries

theorem a_pointed_unit_decodes_alike :
    pointed.Linked ∧ pointed.Takes unitOffsets ∧ pointed.TakesOnly unitOffsets ∧
      entriesOf pointed = some [
        ⟨.ofUnit 0 12, some "int", some 4, .base⟩,
        ⟨.ofUnit 0 18, none, some 8, .pointer (some (.ofUnit 0 12))⟩] ∧
      Image.ofSections "a.o" true (pointed.unlink unitOffsets) =
        Image.ofSections "a.o" true pointed := by
  have linked : pointed.Linked := by
    intro part
    cases part <;> rfl
  have only : pointed.TakesOnly unitOffsets := by decide +kernel
  exact ⟨linked, by decide +kernel, only, by decide +kernel,
    relocatable_and_linked_sections_decode_alike "a.o" true linked only⟩

/-- The place of the name of an integer. -/
def nameOffset : List Position := [⟨.info, 17, 4⟩]

/-- A structure that holds another and an integer. The inner one says that its sibling starts within
the integer, where the place of the name reads as a member. -/
def bent : Sections where
  info := { bytes := #[
    19, 0, 0, 0, 4, 0, 0, 0, 0, 0, 8,
    1,
    4,
    5, 17, 0,
    2, 3, 0, 0, 0,
    0,
    0] }
  abbreviations := { bytes := #[
    1, 0x11, 1, 0, 0,
    2, 0x24, 0, 0x03, 0x0e, 0, 0,
    3, 0x0d, 0, 0x49, 0x11, 0, 0,
    4, 0x13, 1, 0, 0,
    5, 0x13, 1, 0x01, 0x11, 0, 0,
    0] }
  text := { bytes := #[0, 0, 0, 105, 110, 116, 0] }

/-- Where the bytes of an offset are also read as an entry, the zeros stored in its stead show. -/
theorem an_offset_read_as_an_entry_shows_its_zeros :
    bent.Linked ∧ bent.Takes nameOffset ∧
      entriesOf (bent.unlink nameOffset) ≠ entriesOf bent ∧
      Image.ofSections "a.o" true (bent.unlink nameOffset) ≠
        Image.ofSections "a.o" true bent := by
  have apart : entriesOf (bent.unlink nameOffset) ≠ entriesOf bent := by decide +kernel
  refine ⟨?linked, by decide +kernel, apart, ?images⟩
  case linked =>
    intro part
    cases part <;> rfl
  case images =>
    intro alike
    refine apart ?_
    unfold entriesOf
    rw [alike]

end Dwarf

end LayoutGraph
