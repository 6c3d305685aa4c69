-- The law of extents: an axis of an array has as many indices as lie between its
-- bounds, as long as the lower one is not below zero. One below zero is taken for
-- zero.
import LayoutGraph.Proofs.Dwarf.Origin

namespace LayoutGraph.Dwarf

open Work Decoding

variable {sections : Sections} {log left : Array Log.Event} {s : Scope} {d : Die}

namespace CompiledUnit

/-! ## Bounds -/

/-- The lower bound of an axis is stored, or is zero where the axis has none. -/
def KeepsLower (sections : Sections) (u : CompiledUnit) (child : Die) (lower : Int) : Prop :=
  u.Keeps sections child.place .lowerBound lower ∨ child.carries .lowerBound = false ∧ lower = 0

/-- An axis has its bounds stored, and both are words with a sign. -/
structure Bounds (sections : Sections) (u : CompiledUnit) (child : Die) (lower upper : Int) :
    Prop where
  hasLower : u.KeepsLower sections child lower
  hasUpper : u.Keeps sections child.place .upperBound upper
  lowerFits : -Word.signedEnd ≤ lower ∧ lower < Word.signedEnd
  upperFits : -Word.signedEnd ≤ upper ∧ upper < Word.signedEnd

/-- Taken for a number without a sign, a stored number is there from zero on only. -/
theorem Keeps.unsigned? {u : CompiledUnit} {wanted : AttributeName} {v : Int}
    (has : u.Has sections d) (h : u.Keeps sections d.place wanted v)
    (plain : wanted ∈ Form.plainNames) (low : -Word.signedEnd ≤ v) (high : v < Word.signedEnd) :
    (d.value? wanted).bind AttributeValue.unsigned? = if 0 ≤ v then some v.toNat else none := by
  obtain ⟨spec, form, c, bytes, reaches, shows, keeps⟩ := h
  obtain ⟨value, next, hgives, hvalue⟩ :=
    keeps.gives u.encoding shows low high (reaches.name.symm ▸ plain)
  rw [reaches.value? has hgives, Option.bind_some, hvalue]

end CompiledUnit

theorem Die.value?_of_not_carries {wanted : AttributeName} (h : d.carries wanted = false) :
    d.value? wanted = none := by
  unfold carries at h
  simpa using h

namespace Scope

/-! ## Extents -/

theorem gives_number? {wanted : AttributeName} {o : Option Nat}
    (h : Gives sections log (number? d wanted) o left) :
    o = (d.value? wanted).bind AttributeValue.unsigned? := by
  obtain ⟨v, hv, rfl⟩ := gives_map_iff.mp h
  rw [gives_attribute? hv]

/-- An axis without a count has the extent between its bounds, as they are taken for numbers without
a sign. -/
theorem extent_of_result {extent : Nat} (h : (extent? d).result sections = .ok (some extent))
    (uncounted : d.carries .count = false) :
    extent = span (((d.value? .lowerBound).bind AttributeValue.unsigned?).getD 0)
      ((d.value? .upperBound).bind AttributeValue.unsigned?) := by
  have hgives : Gives sections #[] (extent? d) (some extent) _ := Prod.ext h rfl
  unfold extent? at hgives
  split at hgives
  · cases (gives_pure_iff.mp hgives).1
  · obtain ⟨count, _, hcount, hrest⟩ := gives_bind_iff.mp hgives
    have hnone : count = none := by
      rw [gives_number? hcount, Die.value?_of_not_carries uncounted]
      rfl
    subst hnone
    obtain ⟨lower, _, hlower, hupper⟩ := gives_bind_iff.mp hrest
    obtain ⟨upper, hupper, hextent⟩ := gives_map_iff.mp hupper
    rw [← gives_number? hlower, ← gives_number? hupper]
    exact (Option.some.inj hextent).symm

/-- Between bounds from zero on lie as many indices as their distance and one more. -/
theorem span_eq {lower upper : Nat} (fits : upper < Word.signedEnd) :
    (span lower (some upper) : Int) = max ((upper : Int) - lower + 1) 0 := by
  unfold span
  unfold Word.signedEnd at fits
  dsimp only
  unfold Word.greatest Word.count
  split <;> omega

/-- A lower bound below zero is taken for zero. -/
theorem extent_of_bounds {lower upper : Int} {extent : Nat} (has : s.unit.Has sections d)
    (h : (extent? d).result sections = .ok (some extent)) (uncounted : d.carries .count = false)
    (bounds : s.unit.Bounds sections d lower upper) :
    (extent : Int) = max (upper - max lower 0 + 1) 0 := by
  have hlower : ((d.value? .lowerBound).bind AttributeValue.unsigned?).getD 0 = lower.toNat := by
    rcases bounds.hasLower with hkeeps | ⟨habsent, rfl⟩
    · rw [hkeeps.unsigned? has (by decide) bounds.lowerFits.1 bounds.lowerFits.2]
      split
      · rfl
      · rw [Option.getD_none]
        omega
    · rw [Die.value?_of_not_carries habsent]
      rfl
  rw [extent_of_result h uncounted, hlower,
    bounds.hasUpper.unsigned? has (by decide) bounds.upperFits.1 bounds.upperFits.2]
  have hfits := bounds.upperFits.2
  split
  · rw [span_eq (by omega)]
    omega
  · show ((0 : Nat) : Int) = _
    omega

end Scope
end LayoutGraph.Dwarf

namespace LayoutGraph

/-! ## The law -/

open Dwarf

/-- Every entry with the tag of an array, in any sections that can be decoded, becomes an array with
an extent for each axis below the entry, in order. An axis without a count and without an upper
bound has the extent zero. One without a count and with bounds that are words with a sign, the lower
one zero where it is not given, has as many indices as lie between them, zero if the upper one is
below the lower, provided that the lower one is not below zero or the upper one is below it. A lower
bound below zero is taken for zero. -/
theorem an_axis_has_the_indices_between_its_bounds_unless_the_lower_is_below_zero
    (origin : String) (littleEndian : Bool) {sections : Sections} {image : Image}
    {log : List Log.Event}
    (decoded : Image.ofSections origin littleEndian sections = (.ok image, log))
    {units : List CompiledUnit} (held : allUnits.result sections = .ok units) {s : Scope}
    (hs : s ∈ scopes units) {d : Die} (hd : d ∈ s.typeDies sections) (htag : d.tag = .arrayType) :
    ∃ e ∈ image.entries, e.id = s.idOf d ∧ ∃ element extents children,
      e.kind = .array element extents ∧
      (s.unit.children d).run sections = ⟨children, none⟩ ∧
      List.Forall₂ (fun child (extent : Nat) => s.unit.Has sections child ∧
          (child.carries .count = false →
            (child.carries .upperBound = false → extent = 0) ∧
            ∀ lower upper : Int, s.unit.Bounds sections child lower upper →
              (0 ≤ lower ∨ upper < lower → (extent : Int) = max (upper - lower + 1) 0) ∧
              (lower < 0 → (extent : Int) = max (upper + 1) 0)))
        (children.filter Die.isAxis) extents := by
  obtain ⟨e, he, hrecords⟩ := exists_records decoded held hs hd
  obtain ⟨children, hchildren, hhas, hdescribes⟩ :=
    hrecords.describes (outline_of_mem_scopesFrom hs) (by rw [htag]; decide)
  obtain ⟨element, extents, hkind, hparts⟩ := hdescribes.of_arrayType htag
  refine ⟨e, he, hrecords.1, element, extents, children, hkind, hchildren, ?_⟩
  refine (hparts.with_has hhas).imp ?_
  rintro child extent ⟨hchild, hextent⟩
  refine ⟨hchild, fun uncounted => ⟨fun absent => ?_, fun lower upper bounds => ?_⟩⟩
  · rw [Scope.extent_of_result hextent uncounted, Die.value?_of_not_carries absent]
    rfl
  · -- The lower bound counts for what it is above zero, and for zero below.
    have hvalue := Scope.extent_of_bounds hchild hextent uncounted bounds
    refine ⟨fun h => ?_, fun h => ?_⟩ <;> omega

namespace Dwarf

open Work

/-- An array with five axes. Three have bounds with a sign, from -2 to 3, from -3 to -1 and from 3
to -2; one has bounds of one byte, from 1 to 200, and the last has none. -/
def fiveAxes : Sections where
  info := { bytes := #[
    27, 0, 0, 0, 4, 0, 0, 0, 0, 0, 8,
    1,
      2, 4,
      3, 12,
        4, 0x7e, 0x03,
        4, 0x7d, 0x7f,
        4, 0x03, 0x7e,
        5, 1, 200,
        6,
      0,
    0] }
  abbreviations := { bytes := #[
    1, 0x11, 1, 0, 0,
    2, 0x24, 0, 0x0b, 0x0b, 0, 0,
    3, 0x01, 1, 0x49, 0x11, 0, 0,
    4, 0x21, 0, 0x22, 0x0d, 0x2f, 0x0d, 0, 0,
    5, 0x21, 0, 0x22, 0x0b, 0x2f, 0x0b, 0, 0,
    6, 0x21, 0, 0, 0,
    0] }

def axisIn (code form : Nat) : Abbreviation :=
  ⟨code, .subrangeType, false, [⟨.lowerBound, form, none⟩, ⟨.upperBound, form, none⟩]⟩

/-- The unit that the sections hold. -/
def fiveAxesUnit : CompiledUnit :=
  ⟨false, 0, 11, 31, ⟨4, 4, 8⟩, .other,
    [⟨1, .other, true, []⟩, ⟨2, .baseType, false, [⟨.byteSize, 0x0b, none⟩]⟩,
      ⟨3, .arrayType, true, [⟨.type, 0x11, none⟩]⟩, axisIn 4 0x0d, axisIn 5 0x0b,
      ⟨6, .subrangeType, false, []⟩], 0⟩

def fiveAxesScope : Scope := ⟨[fiveAxesUnit], 0, fiveAxesUnit, fiveAxesUnit.outline⟩

def fiveAxesArray : Die := whole 14 16 .arrayType true [ofType 12]

def axisAt (place next : Nat) (lower upper : AttributeValue) : Die :=
  whole place next .subrangeType false [⟨.lowerBound, lower⟩, ⟨.upperBound, upper⟩]

def boundedAxes : List Die :=
  [axisAt 16 19 (.signed (-2)) (.signed 3), axisAt 19 22 (.signed (-3)) (.signed (-1)),
    axisAt 22 25 (.signed 3) (.signed (-2)), axisAt 25 28 (.data 1 1) (.data 1 200)]

def boundlessAxis : Die := whole 28 29 .subrangeType false []

/-- What the array comes out as. -/
def fiveAxesEntries : List Entry :=
  [⟨.ofUnit 0 12, some "void", some 4, .base⟩,
    ⟨.ofUnit 0 14, none, none, .array (.ofUnit 0 12) [4, 0, 0, 200, 0]⟩]

/-- Bounds of one byte each are those of the axis. -/
theorem bounds_of_fiveAxes {child : Die} (code : Nat) {number : Nat} (form : Form)
    {first second : UInt8} {value : AttributeValue} {lower upper : Int}
    (begins : Gives fiveAxes (fiveAxesUnit.cursorAt child.place) Read.unsigned code
      ⟨.info, child.place + 1, 31⟩)
    (real : code ≠ 0)
    (known : (fiveAxesUnit.abbreviations.find? fun a => a.code = code) = some (axisIn code number))
    (formed : ∀ c, Gives fiveAxes c (AttributeValue.findForm 32 number) form c)
    (read : Gives fiveAxes ⟨.info, child.place + 1, 31⟩
      (AttributeValue.readCode fiveAxesUnit.encoding ⟨.lowerBound, number, none⟩ 32 number) value
      ⟨.info, child.place + 2, 31⟩)
    (firstShows : Cursor.Shows fiveAxes ⟨.info, child.place + 1, 31⟩ [first])
    (secondShows : Cursor.Shows fiveAxes ⟨.info, child.place + 2, 31⟩ [second])
    (firstKeeps : ∀ spec, form.Keeps true spec lower [first])
    (secondKeeps : ∀ spec, form.Keeps true spec upper [second])
    (lowerFits : -Word.signedEnd ≤ lower ∧ lower < Word.signedEnd)
    (upperFits : -Word.signedEnd ≤ upper ∧ upper < Word.signedEnd) :
    fiveAxesUnit.Bounds fiveAxes child lower upper where
  hasLower := .inl ⟨_, form, _, [first],
    ⟨begins, real, known, .here rfl (formed _)⟩, firstShows, firstKeeps _⟩
  hasUpper := ⟨_, form, _, [second],
    ⟨begins, real, known, .later nofun read (.here rfl (formed _))⟩, secondShows,
    secondKeeps _⟩
  lowerFits := lowerFits
  upperFits := upperFits

theorem boundedAxes_have_bounds :
    List.Forall₂ (fun child (p : Int × Int) => fiveAxesUnit.Bounds fiveAxes child p.1 p.2)
      boundedAxes [(-2, 3), (-3, -1), (3, -2), (1, 200)] := by
  have one : 1 ≤ Read.longest := by decide
  have natural (b : UInt8) (hb : b.toNat < 64) (spec : AttributeSpec) :
      Form.signed.Keeps true spec b.toNat [b] := .signed (.last hb) one
  have negative (b : UInt8) (low : 64 ≤ b.toNat) (high : b.toNat < 128) (spec : AttributeSpec) :
      Form.signed.Keeps true spec (b.toNat - 128) [b] := .signed (.negative low high) one
  have data (b : UInt8) (spec : AttributeSpec) : (Form.data 1).Keeps true spec b.toNat [b] := by
    have stores : (Form.data [b].length).Stores true b.toNat [b] := .data (.head _) rfl
    exact .natural stores
  refine .cons ?_ <| .cons ?_ <| .cons ?_ <| .cons ?_ .nil
  · exact bounds_of_fiveAxes 4 .signed rfl (by decide) rfl (fun _ => rfl) rfl
      ⟨rfl, by decide⟩ ⟨rfl, by decide⟩ (negative 0x7e (by decide) (by decide))
      (natural 3 (by decide)) (by decide) (by decide)
  · exact bounds_of_fiveAxes 4 .signed rfl (by decide) rfl (fun _ => rfl) rfl
      ⟨rfl, by decide⟩ ⟨rfl, by decide⟩ (negative 0x7d (by decide) (by decide))
      (negative 0x7f (by decide) (by decide)) (by decide) (by decide)
  · exact bounds_of_fiveAxes 4 .signed rfl (by decide) rfl (fun _ => rfl) rfl
      ⟨rfl, by decide⟩ ⟨rfl, by decide⟩ (natural 3 (by decide))
      (negative 0x7e (by decide) (by decide)) (by decide) (by decide)
  · exact bounds_of_fiveAxes 5 (.data 1) rfl (by decide) rfl (fun _ => rfl) rfl
      ⟨rfl, by decide⟩ ⟨rfl, by decide⟩ (data 1) (data 200) (by decide) (by decide)

theorem fiveAxes_units : allUnits.result fiveAxes = .ok [fiveAxesUnit] := by decide +kernel

theorem fiveAxes_decoded : ∃ image log, Image.ofSections "a.o" true fiveAxes = (.ok image, log) ∧
    image.entries = fiveAxesEntries :=
  exists_decoded _ _ Image.entries (by decide +kernel)

theorem five_axes_have_the_indices_from_zero_on :
    allUnits.result fiveAxes = .ok [fiveAxesUnit] ∧
      fiveAxesScope ∈ scopes [fiveAxesUnit] ∧
      fiveAxesArray ∈ fiveAxesScope.typeDies fiveAxes ∧ fiveAxesArray.tag = .arrayType ∧
      List.Forall₂ (fun child (p : Int × Int) => fiveAxesUnit.Bounds fiveAxes child p.1 p.2)
        boundedAxes [(-2, 3), (-3, -1), (3, -2), (1, 200)] ∧
      ∃ image log, Image.ofSections "a.o" true fiveAxes = (.ok image, log) ∧
        ∃ e ∈ image.entries, e.id = fiveAxesScope.idOf fiveAxesArray ∧ ∃ element extents children,
          e.kind = .array element extents ∧
          (fiveAxesUnit.children fiveAxesArray).run fiveAxes = ⟨children, none⟩ ∧
          List.Forall₂ (fun child (extent : Nat) => fiveAxesUnit.Has fiveAxes child ∧
              (child.carries .count = false →
                (child.carries .upperBound = false → extent = 0) ∧
                ∀ lower upper : Int, fiveAxesUnit.Bounds fiveAxes child lower upper →
                  (0 ≤ lower ∨ upper < lower → (extent : Int) = max (upper - lower + 1) 0) ∧
                  (lower < 0 → (extent : Int) = max (upper + 1) 0)))
            (children.filter Die.isAxis) extents := by
  have hs : fiveAxesScope ∈ scopes [fiveAxesUnit] := .head _
  have hd : fiveAxesArray ∈ fiveAxesScope.typeDies fiveAxes := by decide +kernel
  obtain ⟨image, log, decoded, -⟩ := fiveAxes_decoded
  exact ⟨fiveAxes_units, hs, hd, rfl, boundedAxes_have_bounds, image, log, decoded,
    an_axis_has_the_indices_between_its_bounds_unless_the_lower_is_below_zero "a.o" true decoded
      fiveAxes_units hs hd rfl⟩

/-- The six indices from -2 to 3 come out as four, and the three from -3 to -1 as none. -/
theorem indices_below_zero_are_not_counted :
    allUnits.result fiveAxes = .ok [fiveAxesUnit] ∧
      (∃ image log, Image.ofSections "a.o" true fiveAxes = (.ok image, log) ∧
        image.entries = fiveAxesEntries) ∧
      fiveAxesUnit.Has fiveAxes fiveAxesArray ∧
      (fiveAxesUnit.children fiveAxesArray).run fiveAxes =
        ⟨boundedAxes ++ [boundlessAxis], none⟩ ∧
      (∀ child ∈ boundedAxes, child.carries .count = false) ∧
      ¬ List.Forall₂ (fun child (extent : Nat) => ∀ lower upper : Int,
          fiveAxesUnit.Bounds fiveAxes child lower upper →
            (extent : Int) = max (upper - lower + 1) 0)
        (boundedAxes ++ [boundlessAxis]) [4, 0, 0, 200, 0] := by
  have has : (fiveAxesUnit.itemAt 14).run.run fiveAxes = .ok (.die fiveAxesArray) := by
    decide +kernel
  refine ⟨fiveAxes_units, fiveAxes_decoded, has, by decide +kernel, by decide, fun same => ?_⟩
  have hfirst := List.forall₂_iff_get.mp same |>.2 0 (by decide) (by decide)
  have bounds := List.forall₂_iff_get.mp boundedAxes_have_bounds |>.2 0 (by decide) (by decide)
  have hvalue : (4 : Int) = max (3 - -2 + 1) 0 := hfirst (-2) 3 bounds
  exact absurd hvalue (by decide)

end Dwarf

end LayoutGraph
