-- The law of constants: an enumerator has the value that is stored for it,
-- whichever form holds it, as long as the value leaves the top bit of its bytes
-- clear. One that fills its bytes comes out below zero.
import LayoutGraph.Proofs.Dwarf.Origin

namespace LayoutGraph.Dwarf

open Work Decoding

variable {sections : Sections} {log left : Array Log.Event} {s : Scope} {d : Die}

namespace Scope

/-! ## Constants -/

/-- The value of a constant is that of its attribute as a number with a sign. -/
theorem value_of_gives_constant? {k : Constant}
    (h : Gives sections log (s.constant? d) (some k) left) :
    k.value = ((d.value? .constValue).bind AttributeValue.signed?).getD 0 := by
  unfold constant? at h
  by_cases htag : d.tag = .enumerator
  · rw [if_neg (not_not.mpr htag)] at h
    obtain ⟨name, _, -, hrest⟩ := gives_bind_iff.mp h
    cases name with
    | none => cases (gives_pure_iff.mp hrest).1
    | some name =>
      obtain ⟨value, hvalue, hk⟩ := gives_map_iff.mp hrest
      cases hk
      rw [gives_attribute? hvalue]
  · rw [if_pos htag] at h
    cases (gives_pure_iff.mp h).1

/-- A constant is as its number was stored. -/
theorem value_of_holds {k : Constant} {form : Form} {v : Nat} (has : s.unit.Has sections d)
    (holds : s.unit.Holds sections d.place .constValue form v) (bound : v < Word.signedEnd)
    (h : (s.constant? d).result sections = .ok (some k)) : k.value = form.taken v := by
  obtain ⟨c, bytes, stands, shows, stores⟩ := holds
  have hvalue : d.value? .constValue = some (form.value v) :=
    stands.value? has fun _ hname => ⟨_, stores.gives _ shows bound (hname ▸ .head _)⟩
  have hgives : Gives sections #[] (s.constant? d) (some k) _ := Prod.ext h rfl
  rw [value_of_gives_constant? hgives, hvalue, Option.bind_some, stores.signed? bound]
  rfl

/-- An enumeration has a constant for each enumerator below it that has a name, in order. -/
theorem constants_of_gives_kind? {constants : List Constant}
    (h : Gives sections log (s.kind? d) (some (.enumeration constants)) left) :
    d.tag = .enumerationType ∧ ∃ children, (s.outline.children d).run sections = ⟨children, none⟩ ∧
      Parts sections s.constant? (children.filter Die.isConstant) constants := by
  unfold kind? at h
  cases htag : d.tag <;> rw [htag] at h
  case enumerationType =>
    obtain ⟨found, hfound, hk⟩ := gives_map_iff.mp h
    cases hk
    obtain ⟨children, hwhole⟩ := whole_of_gives_gather hfound
    exact ⟨rfl, children, hwhole, parts_of_gather (fun _ => ignoresLog_constant?)
      (fun _ _ _ _ => gives_constant?) hwhole hfound⟩
  case structureType | classType | unionType =>
    obtain ⟨_, hcompound, hk⟩ := gives_map_iff.mp h
    cases hk
    obtain ⟨_, _, -, hrest⟩ := gives_bind_iff.mp hcompound
    obtain ⟨_, -, hk⟩ := gives_map_iff.mp hrest
    cases hk
  case arrayType =>
    obtain ⟨_, _, -, hrest⟩ := gives_bind_iff.mp h
    obtain ⟨_, -, hk⟩ := gives_map_iff.mp hrest
    cases hk
  case pointerType | referenceType | rvalueReferenceType | typedef | constType | volatileType |
      restrictType | atomicType =>
    obtain ⟨_, -, hk⟩ := gives_map_iff.mp h
    cases hk
  all_goals cases (gives_pure_iff.mp h).1

end Scope

end LayoutGraph.Dwarf

namespace LayoutGraph

/-! ## The law -/

open Dwarf

/-- An enumeration of any sections that can be decoded is that of an entry of a unit, and has a
constant for each enumerator below that entry that has a name, in order. If the enumerator has a
number from zero up to 63 bits as its value, stored in any form for constants and where the forms of
its attributes put it, the constant has that value, provided that the number leaves the top bit clear
where its form has a fixed length. Where it does not, the constant is below zero by that length. -/
theorem an_enumerator_has_its_value_unless_it_fills_its_bytes (origin : String)
    (littleEndian : Bool) {sections : Sections} {image : Image} {log : List Log.Event}
    (decoded : Image.ofSections origin littleEndian sections = (.ok image, log)) {e : Entry}
    (he : e ∈ image.entries) {constants : List Constant} (hkind : e.kind = .enumeration constants) :
    ∃ units, allUnits.result sections = .ok units ∧ ∃ s ∈ scopes units, ∃ d children,
      e.id = s.idOf d ∧ s.unit.Has sections d ∧ d.tag = .enumerationType ∧
      (s.unit.children d).run sections = ⟨children, none⟩ ∧
      List.Forall₂ (fun child (k : Constant) => s.unit.Has sections child ∧
          ∀ (form : Form) (v : Nat), s.unit.Holds sections child.place .constValue form v →
            v < Word.signedEnd → (form.Spares v → k.value = (v : Int)) ∧
            ∀ count, form = .data count → ¬ form.Spares v → k.value = (v : Int) - 2 ^ (8 * count))
        (children.filter Die.isConstant) constants := by
  obtain ⟨contents, hcontents, rfl⟩ := Image.ofSections_ok decoded
  obtain ⟨units, held⟩ := units_of_decode hcontents
  obtain ⟨start, left, hgives⟩ := gives_of_decode held hcontents
  obtain ⟨t, ht, rfl⟩ := List.mem_map.mp he
  obtain ⟨s, hs, d, has, hid, log, left, hentry⟩ := exists_of_gives_decodeFrom hgives t ht
  rw [hkind] at hentry
  obtain ⟨htag, children, hchildren, hparts⟩ := Scope.constants_of_gives_kind? hentry
  rw [outline_of_mem_scopesFrom hs] at hchildren
  have hchildren : (s.unit.children d).run sections = ⟨children, none⟩ := hchildren
  have hhas : ∀ child ∈ children.filter Die.isConstant, s.unit.Has sections child := by
    intro child hchild
    refine CompiledUnit.has_of_mem_children (d := d) ?_
    rw [hchildren]
    exact (List.mem_filter.mp hchild).1
  refine ⟨units, held, s, hs, d, children, hid, has, htag, hchildren, ?_⟩
  refine ((List.forall₂_and_left _ _).mpr ⟨hhas, hparts⟩).imp ?_
  rintro child k ⟨hchild, hk⟩
  refine ⟨hchild, fun form v holds bound => ?_⟩
  have hvalue := Scope.value_of_holds hchild holds bound hk
  refine ⟨fun spares => hvalue.trans (Form.taken_of_spares spares), ?_⟩
  rintro count rfl full
  exact hvalue.trans (Form.taken_of_not_spares full)

namespace Dwarf

open Work

/-- An enumeration with six enumerators. Each has the number 255 as its value, in a form of its
own: LEB128 without a sign and with one, two, four and eight bytes, and one byte, which it fills. -/
def sixForms : Sections where
  info := { bytes := #[
    48, 0, 0, 0, 4, 0, 0, 0, 0, 0, 8,
    1,
      2,
        3, 65, 0, 0xff, 0x01,
        4, 66, 0, 0xff, 0x01,
        5, 67, 0, 0xff, 0,
        6, 68, 0, 0xff, 0, 0, 0,
        7, 69, 0, 0xff, 0, 0, 0, 0, 0, 0, 0,
        8, 70, 0, 0xff,
      0,
    0] }
  abbreviations := { bytes := #[
    1, 0x11, 1, 0, 0,
    2, 0x04, 1, 0, 0,
    3, 0x28, 0, 0x03, 0x08, 0x1c, 0x0f, 0, 0,
    4, 0x28, 0, 0x03, 0x08, 0x1c, 0x0d, 0, 0,
    5, 0x28, 0, 0x03, 0x08, 0x1c, 0x05, 0, 0,
    6, 0x28, 0, 0x03, 0x08, 0x1c, 0x06, 0, 0,
    7, 0x28, 0, 0x03, 0x08, 0x1c, 0x07, 0, 0,
    8, 0x28, 0, 0x03, 0x08, 0x1c, 0x0b, 0, 0,
    0] }

def enumeratorIn (code form : Nat) : Abbreviation :=
  ⟨code, .enumerator, false, [⟨.name, 0x08, none⟩, ⟨.constValue, form, none⟩]⟩

/-- The unit that the sections hold. -/
def sixFormsUnit : CompiledUnit :=
  ⟨false, 0, 11, 52, ⟨4, 4, 8⟩, .other,
    [⟨1, .other, true, []⟩, ⟨2, .enumerationType, true, []⟩, enumeratorIn 3 0x0f,
      enumeratorIn 4 0x0d, enumeratorIn 5 0x05, enumeratorIn 6 0x06, enumeratorIn 7 0x07,
      enumeratorIn 8 0x0b], 0⟩

/-- What the enumerators come out as. -/
def sixConstants : List Constant :=
  [⟨"A", 255⟩, ⟨"B", 255⟩, ⟨"C", 255⟩, ⟨"D", 255⟩, ⟨"E", 255⟩, ⟨"F", -1⟩]

def sixFormsEntry : Entry := ⟨.ofUnit 0 12, none, none, .enumeration sixConstants⟩

def enumeratorAt (place next : Nat) (letter : UInt8) (value : AttributeValue) : Die :=
  whole place next .enumerator false [⟨.name, .text [letter]⟩, ⟨.constValue, value⟩]

def sixEnumerators : List Die :=
  [enumeratorAt 13 18 65 (.unsigned 255), enumeratorAt 18 23 66 (.signed 255),
    enumeratorAt 23 28 67 (.data 2 255), enumeratorAt 28 35 68 (.data 4 255),
    enumeratorAt 35 46 69 (.data 8 255), enumeratorAt 46 50 70 (.data 1 255)]

def sixFormsEnumeration : Die := whole 12 13 .enumerationType true []

/-- A number that is stored behind the name of an enumerator is its value. -/
theorem holds_of_sixForms (code : Nat) {place number : Nat} {letter : UInt8} {form : Form}
    {bytes : List UInt8}
    (begins : Gives sixForms (sixFormsUnit.cursorAt place) Read.unsigned code ⟨.info, place + 1, 52⟩)
    (real : code ≠ 0)
    (known : (sixFormsUnit.abbreviations.find? fun a => a.code = code) =
      some (enumeratorIn code number))
    (named : Gives sixForms ⟨.info, place + 1, 52⟩
      (AttributeValue.readCode sixFormsUnit.encoding ⟨.name, 0x08, none⟩ 53 0x08)
      (.text [letter]) ⟨.info, place + 3, 52⟩)
    (formed : Gives sixForms ⟨.info, place + 3, 52⟩ (AttributeValue.findForm 53 number) form
      ⟨.info, place + 3, 52⟩)
    (shows : Cursor.Shows sixForms ⟨.info, place + 3, 52⟩ bytes)
    (stores : form.Stores true 255 bytes) :
    sixFormsUnit.Holds sixForms place .constValue form 255 :=
  ⟨_, bytes, ⟨begins, real, known, .later (by decide) named (.here rfl formed)⟩, shows, stores⟩

theorem sixEnumerators_hold :
    List.Forall₂ (fun child form => sixFormsUnit.Holds sixForms child.place .constValue form 255)
      sixEnumerators [.unsigned, .signed, .data 2, .data 4, .data 8, .data 1] := by
  have unsigned : Form.unsigned.Stores true 255 [0xff, 1] :=
    .unsigned (.more (b := 0xff) (by decide) (.last (b := 1) (by decide))) (by decide)
  have signed : Form.signed.Stores true 255 [0xff, 1] :=
    .signed (.more (b := 0xff) (by decide) (.last (b := 1) (by decide))) (by decide)
  have data (bytes : List UInt8) (length : bytes.length ∈ [1, 2, 4, 8])
      (number : Bytes.toNumber true bytes = 255) : (Form.data bytes.length).Stores true 255 bytes :=
    .data length number
  refine .cons ?_ <| .cons ?_ <| .cons ?_ <| .cons ?_ <| .cons ?_ <| .cons ?_ .nil
  · exact holds_of_sixForms 3 rfl (by decide) rfl rfl rfl ⟨rfl, by decide⟩ unsigned
  · exact holds_of_sixForms 4 rfl (by decide) rfl rfl rfl ⟨rfl, by decide⟩ signed
  · exact holds_of_sixForms 5 rfl (by decide) rfl rfl rfl ⟨rfl, by decide⟩
      (data [0xff, 0] (by decide) rfl)
  · exact holds_of_sixForms 6 rfl (by decide) rfl rfl rfl ⟨rfl, by decide⟩
      (data [0xff, 0, 0, 0] (by decide) rfl)
  · exact holds_of_sixForms 7 rfl (by decide) rfl rfl rfl ⟨rfl, by decide⟩
      (data [0xff, 0, 0, 0, 0, 0, 0, 0] (by decide) rfl)
  · exact holds_of_sixForms 8 rfl (by decide) rfl rfl rfl ⟨rfl, by decide⟩
      (data [0xff] (by decide) rfl)

theorem sixForms_decoded : ∃ image log, Image.ofSections "a.o" true sixForms = (.ok image, log) ∧
    image.entries = [sixFormsEntry] :=
  exists_decoded _ _ Image.entries (by decide +kernel)

theorem a_number_has_its_value_in_five_of_six_forms :
    allUnits.result sixForms = .ok [sixFormsUnit] ∧
      (sixFormsUnit.children sixFormsEnumeration).run sixForms = ⟨sixEnumerators, none⟩ ∧
      List.Forall₂ (fun child form => sixFormsUnit.Holds sixForms child.place .constValue form 255)
        sixEnumerators [.unsigned, .signed, .data 2, .data 4, .data 8, .data 1] ∧
      ∃ image log, Image.ofSections "a.o" true sixForms = (.ok image, log) ∧
        sixFormsEntry ∈ image.entries ∧ sixFormsEntry.kind = .enumeration sixConstants ∧
        ∃ units, allUnits.result sixForms = .ok units ∧ ∃ s ∈ scopes units, ∃ d children,
          sixFormsEntry.id = s.idOf d ∧ s.unit.Has sixForms d ∧ d.tag = .enumerationType ∧
          (s.unit.children d).run sixForms = ⟨children, none⟩ ∧
          List.Forall₂ (fun child (k : Constant) => s.unit.Has sixForms child ∧
              ∀ (form : Form) (v : Nat), s.unit.Holds sixForms child.place .constValue form v →
                v < Word.signedEnd → (form.Spares v → k.value = (v : Int)) ∧
                ∀ count, form = .data count → ¬ form.Spares v →
                  k.value = (v : Int) - 2 ^ (8 * count))
            (children.filter Die.isConstant) sixConstants := by
  have held : allUnits.result sixForms = .ok [sixFormsUnit] := by decide +kernel
  have hchildren : (sixFormsUnit.children sixFormsEnumeration).run sixForms =
      ⟨sixEnumerators, none⟩ := by decide +kernel
  obtain ⟨image, log, decoded, hentries⟩ := sixForms_decoded
  have hmem : sixFormsEntry ∈ image.entries := hentries ▸ List.mem_singleton_self _
  exact ⟨held, hchildren, sixEnumerators_hold, image, log, decoded, hmem, rfl,
    an_enumerator_has_its_value_unless_it_fills_its_bytes "a.o" true decoded hmem rfl⟩

/-- The enumerator whose number fills its one byte has not its value. -/
theorem a_number_that_fills_its_byte_is_below_zero :
    allUnits.result sixForms = .ok [sixFormsUnit] ∧
      (∃ image log, Image.ofSections "a.o" true sixForms = (.ok image, log) ∧
        image.entries = [sixFormsEntry]) ∧
      sixFormsUnit.Has sixForms sixFormsEnumeration ∧
      (sixFormsUnit.children sixFormsEnumeration).run sixForms = ⟨sixEnumerators, none⟩ ∧
      ¬ List.Forall₂ (fun child (k : Constant) => ∀ (form : Form) (v : Nat),
          sixFormsUnit.Holds sixForms child.place .constValue form v → v < Word.signedEnd →
            k.value = (v : Int))
        (sixEnumerators.filter Die.isConstant) sixConstants := by
  have has : (sixFormsUnit.itemAt 12).run.run sixForms = .ok (.die sixFormsEnumeration) := by
    decide +kernel
  refine ⟨by decide +kernel, sixForms_decoded, has, by decide +kernel, fun same => ?_⟩
  have hlast := List.forall₂_iff_get.mp same |>.2 5 (by decide) (by decide)
  have holds := List.forall₂_iff_get.mp sixEnumerators_hold |>.2 5 (by decide) (by decide)
  have hvalue : (-1 : Int) = 255 := hlast (.data 1) 255 holds (by decide)
  exact absurd hvalue (by decide)

end Dwarf

end LayoutGraph
