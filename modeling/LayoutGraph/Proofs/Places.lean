-- The law of places: a member stands where the expression that it gives for its
-- place leads to, unless two values are added behind the last constant that is
-- pushed. The place is kept in place of the stack, so the lower value is lost.
import LayoutGraph.Proofs.Dwarf.Expression
import LayoutGraph.Proofs.Dwarf.Origin

namespace LayoutGraph.Dwarf

open Work Decoding

/-! ## The machine -/

namespace Operation

/-- One step of the machine that expressions are for. Its stack has the top first; nothing comes of
a step that takes more values than there are. -/
def step? : Operation → List Nat → Option (List Nat)
  | .constant value, stack => some (value :: stack)
  | .addConstant value, top :: rest => some ((top + value) :: rest)
  | .add, top :: next :: rest => some ((top + next) :: rest)
  | _, _ => none

/-- The stack that operations leave. -/
def evaluate? (operations : List Operation) (stack : List Nat) : Option (List Nat) :=
  operations.foldlM (fun stack o => o.step? stack) stack

/-- No operation pushes a constant. -/
def Pushless (operations : List Operation) : Prop := ∀ v, .constant v ∉ operations

/-- Two values are added behind the last constant that is pushed. -/
def AddsLate (operations : List Operation) : Prop :=
  ∃ before v after, operations = before ++ .constant v :: after ∧ Pushless after ∧ .add ∈ after

variable {o : Operation} {operations before after : List Operation} {stack left : List Nat}

theorem evaluate?_cons : evaluate? (o :: operations) stack =
    (o.step? stack).bind (evaluate? operations) := List.foldlM_cons

theorem evaluate?_append : evaluate? (before ++ after) stack =
    (evaluate? before stack).bind (evaluate? after) := List.foldlM_append

/-- Operations push no constant, or there is a last that does. -/
theorem pushless_or_last (operations : List Operation) : Pushless operations ∨
    ∃ before v after, operations = before ++ .constant v :: after ∧ Pushless after := by
  induction operations with
  | nil => exact .inl fun _ => List.not_mem_nil
  | cons o operations ih =>
    rcases ih with hnone | ⟨before, v, after, rfl, hafter⟩
    · cases o
      case constant v => exact .inr ⟨[], v, operations, rfl, hnone⟩
      all_goals
        refine .inl fun v hv => ?_
        rcases List.mem_cons.mp hv with heq | hv
        · cases heq
        · exact hnone v hv
    · exact .inr ⟨o :: before, v, after, rfl, hafter⟩

/-! ## The place and the top of the stack -/

theorem moveTo_lt {place : Nat} (hplace : place < Word.count)
    (hconstant : ∀ v, o = .constant v → v < Word.count) : moveTo place o < Word.count := by
  cases o with
  | constant v => exact hconstant v rfl
  | addConstant v => exact Nat.mod_lt _ (by decide)
  | add | other => exact hplace

/-- A place is a word. -/
theorem placeOf_lt (hconstants : ∀ v, .constant v ∈ operations → v < Word.count) :
    placeOf operations < Word.count := by
  have run {place : Nat} (hplace : place < Word.count) :
      operations.foldl moveTo place < Word.count := by
    induction operations generalizing place with
    | nil => exact hplace
    | cons o operations ih =>
      refine ih (fun v hv => hconstants v (.tail o hv)) (moveTo_lt hplace ?_)
      rintro v rfl
      exact hconstants v (.head _)
  exact run (by decide)

/-- The place lacks what the additions took from below the top. One step keeps that up, and so does
a whole run. -/
theorem wrap_place (place lost : Nat) {v top : Nat} {beneath rest : List Nat}
    (pushless : Pushless operations) (agrees : Word.wrap (place + lost) = Word.wrap v)
    (h : evaluate? operations (v :: beneath) = some (top :: rest)) :
    Word.wrap (operations.foldl moveTo place + lost +
      (beneath.take (operations.count .add)).sum) = Word.wrap top := by
  -- The place and what was lost so far come to the top. Only an addition loses something: the
  -- value below the top, which the machine takes and the place does not.
  induction operations generalizing place lost v beneath with
  | nil =>
    cases h
    exact agrees
  | cons o operations ih =>
    have pushless' : Pushless operations := fun v hv => pushless v (.tail o hv)
    rw [evaluate?_cons] at h
    unfold Word.wrap Word.count at ih agrees ⊢
    cases o with
    | constant v => exact absurd (.head _) (pushless v)
    | addConstant value =>
      refine ih _ lost pushless' ?_ h
      show (Word.wrap (place + value) + lost) % _ = (v + value) % _
      unfold Word.wrap Word.count
      omega
    | add =>
      cases beneath with
      | nil => cases h
      | cons next beneath =>
        have hrest := ih place (lost + next) pushless' (by omega) h
        rw [List.count_cons_self, List.take_succ_cons, List.sum_cons, ← Nat.add_assoc]
        rwa [← Nat.add_assoc] at hrest
    | other => cases h

/-- What an expression without a constant leads to is the top of the stack. -/
theorem placeOf_of_pushless {top : Nat} {rest : List Nat} (pushless : Pushless operations)
    (h : evaluate? operations [0] = some (top :: rest)) :
    Word.wrap (placeOf operations) = Word.wrap top := by
  have hwrap := wrap_place 0 0 pushless rfl h
  rwa [List.take_nil, List.sum_nil] at hwrap

/-- Behind the last constant the place lacks what the additions took from below it. -/
theorem placeOf_of_last {v top : Nat} {beneath rest : List Nat} (pushless : Pushless after)
    (hbefore : evaluate? before [0] = some beneath)
    (h : evaluate? (before ++ .constant v :: after) [0] = some (top :: rest)) :
    Word.wrap (placeOf (before ++ .constant v :: after) +
      (beneath.take (after.count .add)).sum) = Word.wrap top := by
  rw [evaluate?_append, hbefore, Option.bind_some, evaluate?_cons] at h
  unfold placeOf
  rw [List.foldl_append, List.foldl_cons]
  exact wrap_place v 0 pushless rfl h

theorem placeOf_of_not_addsLate {top : Nat} {rest : List Nat} (early : ¬ AddsLate operations)
    (h : evaluate? operations [0] = some (top :: rest)) :
    Word.wrap (placeOf operations) = Word.wrap top := by
  rcases pushless_or_last operations with hnone | ⟨before, v, after, rfl, hafter⟩
  · exact placeOf_of_pushless hnone h
  · have hnot : .add ∉ after := fun hadd => early ⟨before, v, after, rfl, hafter, hadd⟩
    obtain ⟨beneath, hbefore, -⟩ := Option.bind_eq_some_iff.mp (evaluate?_append.symm.trans h)
    have hwrap := placeOf_of_last hafter hbefore h
    rwa [List.count_eq_zero.mpr hnot, List.take_zero, List.sum_nil] at hwrap

end Operation

/-! ## Members -/

namespace Scope

variable {sections : Sections} {log left : Array Log.Event} {s : Scope} {d : Die}

/-- The place of a member is that of its expression. -/
theorem location_of_expresses {o : Option Nat} {operations : List Operation}
    (has : s.unit.Has sections d)
    (expresses : s.unit.Expresses sections d.place .memberLocation operations)
    (h : Gives sections log (s.location? d) o left) : o = some (placeOf operations) := by
  obtain ⟨c, hvalue, hrun⟩ := expresses.value? has
  obtain ⟨v, _, hv, hrest⟩ := gives_bind_iff.mp h
  rw [gives_attribute? hv, hvalue] at hrest
  obtain ⟨found, hfound, rfl⟩ := gives_map_iff.mp hrest
  obtain ⟨hsame, -⟩ := gives_during_iff.mp hfound
  rw [Except.ok.inj (hsame.symm.trans hrun)]

theorem bytesAndBits_of_some (place : Nat) (dataBits ownBits : Option Nat) :
    (bytesAndBits (some place) dataBits ownBits).1 = place := by
  cases dataBits <;> rfl

/-- A member that gives a place stands there, whatever it says of bits. -/
theorem byteOffset_of_result {m : Member} {operations : List Operation}
    (has : s.unit.Has sections d)
    (expresses : s.unit.Expresses sections d.place .memberLocation operations)
    (h : (s.member? d).result sections = .ok (some m)) : m.byteOffset = placeOf operations := by
  obtain ⟨type, _, _, -, hmember⟩ := exists_of_result_member? h
  obtain ⟨-, location, dataBits, ownBits, _, _, hlocation, hm⟩ := exists_of_gives_member hmember
  rw [hm, location_of_expresses has expresses hlocation]
  exact bytesAndBits_of_some _ dataBits ownBits

end Scope

end LayoutGraph.Dwarf

namespace LayoutGraph

/-! ## The law -/

open Dwarf Operation

/-- Every entry with the tag of a structure, class or union, in any sections that can be decoded,
becomes a compound with a member for each field below the entry, in order. If a field gives its
place as an expression that pushes constants without a sign, adds them to the top and adds the two
topmost values, and if the stack that holds zero at first suffices, the member stands at the value
that is on top at the end, as a word, provided that no two values are added behind the last constant
that is pushed. Where they are, the place lacks the values that those additions took from below. -/
theorem a_member_stands_where_its_expression_leads_unless_values_are_added_late
    (origin : String) (littleEndian : Bool) {sections : Sections} {image : Image}
    {log : List Log.Event}
    (decoded : Image.ofSections origin littleEndian sections = (.ok image, log))
    {units : List CompiledUnit} (held : allUnits.result sections = .ok units) {s : Scope}
    (hs : s ∈ scopes units) {d : Die} (hd : d ∈ s.typeDies sections)
    (htag : d.tag ∈ [.structureType, .classType, .unionType]) :
    ∃ e ∈ image.entries, e.id = s.idOf d ∧ ∃ kind members declaration children,
      e.kind = .compound kind members declaration ∧
      (s.unit.children d).run sections = ⟨children, none⟩ ∧
      List.Forall₂ (fun child (m : Member) => s.unit.Has sections child ∧
          ∀ operations, s.unit.Expresses sections child.place .memberLocation operations →
            ∀ top rest, evaluate? operations [0] = some (top :: rest) →
              (¬ AddsLate operations → m.byteOffset = Word.wrap top) ∧
              ∀ before v after beneath, operations = before ++ .constant v :: after →
                Pushless after → evaluate? before [0] = some beneath →
                Word.wrap (m.byteOffset + (beneath.take (after.count .add)).sum) = Word.wrap top)
        (children.filter Die.isField) members := by
  obtain ⟨e, he, hrecords⟩ := exists_records decoded held hs hd
  have parted : d.tag ∈ Scope.partTags := by
    simp only [List.mem_cons, List.not_mem_nil, or_false] at htag
    rcases htag with htag | htag | htag <;> rw [htag] <;> decide
  obtain ⟨children, hchildren, hhas, hdescribes⟩ :=
    hrecords.describes (outline_of_mem_scopesFrom hs) parted
  obtain ⟨kind, members, declaration, hkind, hparts⟩ := hdescribes.of_compound htag
  refine ⟨e, he, hrecords.1, kind, members, declaration, children, hkind, hchildren, ?_⟩
  refine (hparts.with_has hhas).imp ?_
  rintro child m ⟨hchild, hm⟩
  refine ⟨hchild, fun operations expresses top rest hleaves => ?_⟩
  have hplace := Scope.byteOffset_of_result hchild expresses hm
  have hword : Word.wrap m.byteOffset = m.byteOffset := by
    rw [hplace]
    exact Nat.mod_eq_of_lt (placeOf_lt fun v hv => expresses.constant_lt hv)
  refine ⟨fun early => ?_, ?_⟩
  · rw [← hword, hplace]
    exact placeOf_of_not_addsLate early hleaves
  · rintro before v after beneath rfl pushless hbefore
    rw [hplace]
    exact placeOf_of_last pushless hbefore hleaves

namespace Dwarf

open Work

/-- A structure of three members. The place of the first is four, and eight on top of that; that of
the second is four, and that of the third is eight. -/
def threeMembers : Sections where
  info := { bytes := #[
    39, 0, 0, 0, 4, 0, 0, 0, 0, 0, 8,
    1,
      2, 4,
      3, 16,
        4, 97, 0, 12, 5, 0x23, 4, 0x10, 8, 0x22,
        4, 98, 0, 12, 2, 0x23, 4,
        4, 99, 0, 12, 3, 0x10, 8, 0x22,
      0,
    0] }
  abbreviations := { bytes := #[
    1, 0x11, 1, 0, 0,
    2, 0x24, 0, 0x0b, 0x0b, 0, 0,
    3, 0x13, 1, 0x0b, 0x0b, 0, 0,
    4, 0x0d, 0, 0x03, 0x08, 0x49, 0x11, 0x38, 0x18, 0, 0,
    0] }

def threeMembersField : Abbreviation :=
  ⟨4, .member, false, [⟨.name, 0x08, none⟩, ⟨.type, 0x11, none⟩, ⟨.memberLocation, 0x18, none⟩]⟩

/-- The unit that the sections hold. -/
def threeMembersUnit : CompiledUnit :=
  ⟨false, 0, 11, 43, ⟨4, 4, 8⟩, .other,
    [⟨1, .other, true, []⟩, ⟨2, .baseType, false, [⟨.byteSize, 0x0b, none⟩]⟩,
      ⟨3, .structureType, true, [⟨.byteSize, 0x0b, none⟩]⟩, threeMembersField], 0⟩

def threeMembersScope : Scope := ⟨[threeMembersUnit], 0, threeMembersUnit, threeMembersUnit.outline⟩

def threeMembersStruct : Die := whole 14 16 .structureType true [⟨.byteSize, .data 1 16⟩]

def fieldAt (place next : Nat) (letter : UInt8) : Die :=
  whole place next .member false
    [⟨.name, .text [letter]⟩, ofType 12, ⟨.memberLocation, .block ⟨.info, place + 5, next⟩⟩]

def threeFields : List Die := [fieldAt 16 26 97, fieldAt 26 33 98, fieldAt 33 41 99]

/-- The expressions of the three members. -/
def threeExpressions : List (List Operation) :=
  [[.addConstant 4, .constant 8, .add], [.addConstant 4], [.constant 8, .add]]

def memberOf (name : String) (byteOffset : Nat) : Member :=
  ⟨some name, byteOffset, .ofUnit 0 12, none, none⟩

/-- What the members come out as. -/
def threeMembersList : List Member := [memberOf "a" 8, memberOf "b" 4, memberOf "c" 8]

def threeMembersEntries : List Entry :=
  [⟨.ofUnit 0 12, some "void", some 4, .base⟩,
    ⟨.ofUnit 0 14, none, some 16, .compound .struct threeMembersList false⟩]

/-- An expression that is spelled behind the name and the type of a member is its place. -/
theorem expresses_of_threeMembers {place : Nat} {letter : UInt8} {measure bytes : List UInt8}
    {operations : List Operation}
    (begins : Gives threeMembers (threeMembersUnit.cursorAt place) Read.unsigned 4
      ⟨.info, place + 1, 43⟩)
    (named : Gives threeMembers ⟨.info, place + 1, 43⟩
      (AttributeValue.readCode threeMembersUnit.encoding ⟨.name, 0x08, none⟩ 44 0x08)
      (.text [letter]) ⟨.info, place + 3, 43⟩)
    (typed : Gives threeMembers ⟨.info, place + 3, 43⟩
      (AttributeValue.readCode threeMembersUnit.encoding ⟨.type, 0x11, none⟩ 44 0x11)
      (.unitReference 12) ⟨.info, place + 4, 43⟩)
    (shows : Cursor.Shows threeMembers ⟨.info, place + 4, 43⟩ (measure ++ bytes))
    (measures : Form.expression.Measures true bytes.length measure)
    (spells : SpellsAll true bytes operations) :
    threeMembersUnit.Expresses threeMembers place .memberLocation operations :=
  ⟨.expression, ⟨.info, place + 4, 43⟩, measure, bytes,
    ⟨begins, by decide, rfl,
      .later (by decide) named (.later (by decide) typed (.here rfl rfl))⟩, shows, measures, spells⟩

theorem threeFields_express :
    List.Forall₂ (fun child operations =>
        threeMembersUnit.Expresses threeMembers child.place .memberLocation operations)
      threeFields threeExpressions := by
  have leb (b : UInt8) (hb : b.toNat < 128) : Leb 128 [b] b.toNat := .last hb
  have addFour : Operation.Spells true [0x23, 4] (.addConstant 4) :=
    .addConstant (leb 4 (by decide)) (by decide) (by decide)
  have pushEight : Operation.Spells true [0x10, 8] (.constant 8) :=
    .leb (leb 8 (by decide)) (by decide) (by decide)
  refine .cons ?_ <| .cons ?_ <| .cons ?_ .nil
  · exact expresses_of_threeMembers rfl rfl rfl ⟨rfl, by decide⟩
      (.expression (leb 5 (by decide)) (by decide) (by decide))
      (.cons addFour (.cons pushEight (.cons .add .nil)))
  · exact expresses_of_threeMembers rfl rfl rfl ⟨rfl, by decide⟩
      (.expression (leb 2 (by decide)) (by decide) (by decide)) (.cons addFour .nil)
  · exact expresses_of_threeMembers rfl rfl rfl ⟨rfl, by decide⟩
      (.expression (leb 3 (by decide)) (by decide) (by decide))
      (.cons pushEight (.cons .add .nil))

theorem threeMembers_units : allUnits.result threeMembers = .ok [threeMembersUnit] := by
  decide +kernel

theorem threeMembers_decoded : ∃ image log,
    Image.ofSections "a.o" true threeMembers = (.ok image, log) ∧
      image.entries = threeMembersEntries :=
  exists_decoded _ _ Image.entries (by decide +kernel)

theorem three_members_stand_where_their_last_constants_lead :
    allUnits.result threeMembers = .ok [threeMembersUnit] ∧
      threeMembersScope ∈ scopes [threeMembersUnit] ∧
      threeMembersStruct ∈ threeMembersScope.typeDies threeMembers ∧
      threeMembersStruct.tag ∈ [.structureType, .classType, .unionType] ∧
      List.Forall₂ (fun child operations =>
          threeMembersUnit.Expresses threeMembers child.place .memberLocation operations)
        threeFields threeExpressions ∧
      threeExpressions.map (fun operations => evaluate? operations [0]) =
        [some [12], some [4], some [8]] ∧
      ∃ image log, Image.ofSections "a.o" true threeMembers = (.ok image, log) ∧
        ∃ e ∈ image.entries, e.id = threeMembersScope.idOf threeMembersStruct ∧
          ∃ kind members declaration children, e.kind = .compound kind members declaration ∧
            (threeMembersUnit.children threeMembersStruct).run threeMembers = ⟨children, none⟩ ∧
            List.Forall₂ (fun child (m : Member) => threeMembersUnit.Has threeMembers child ∧
                ∀ operations,
                  threeMembersUnit.Expresses threeMembers child.place .memberLocation operations →
                  ∀ top rest, evaluate? operations [0] = some (top :: rest) →
                    (¬ AddsLate operations → m.byteOffset = Word.wrap top) ∧
                    ∀ before v after beneath, operations = before ++ .constant v :: after →
                      Pushless after → evaluate? before [0] = some beneath →
                      Word.wrap (m.byteOffset + (beneath.take (after.count .add)).sum) =
                        Word.wrap top)
              (children.filter Die.isField) members := by
  have hs : threeMembersScope ∈ scopes [threeMembersUnit] := .head _
  have hd : threeMembersStruct ∈ threeMembersScope.typeDies threeMembers := by decide +kernel
  have htag : threeMembersStruct.tag ∈ [.structureType, .classType, .unionType] := .head _
  obtain ⟨image, log, decoded, -⟩ := threeMembers_decoded
  exact ⟨threeMembers_units, hs, hd, htag, threeFields_express, rfl, image, log, decoded,
    a_member_stands_where_its_expression_leads_unless_values_are_added_late "a.o" true decoded
      threeMembers_units hs hd htag⟩

/-- The first member, whose expression leads to twelve, comes out at eight. -/
theorem a_member_lacks_the_value_that_is_added_last :
    allUnits.result threeMembers = .ok [threeMembersUnit] ∧
      (∃ image log, Image.ofSections "a.o" true threeMembers = (.ok image, log) ∧
        image.entries = threeMembersEntries) ∧
      threeMembersUnit.Has threeMembers threeMembersStruct ∧
      (threeMembersUnit.children threeMembersStruct).run threeMembers = ⟨threeFields, none⟩ ∧
      ¬ List.Forall₂ (fun child (m : Member) => ∀ operations,
          threeMembersUnit.Expresses threeMembers child.place .memberLocation operations →
            ∀ top rest, evaluate? operations [0] = some (top :: rest) →
              m.byteOffset = Word.wrap top)
        (threeFields.filter Die.isField) threeMembersList := by
  have has : (threeMembersUnit.itemAt 14).run.run threeMembers = .ok (.die threeMembersStruct) := by
    decide +kernel
  refine ⟨threeMembers_units, threeMembers_decoded, has, by decide +kernel, fun same => ?_⟩
  have hfirst := List.forall₂_iff_get.mp same |>.2 0 (by decide) (by decide)
  have expresses := List.forall₂_iff_get.mp threeFields_express |>.2 0 (by decide) (by decide)
  have hvalue : 8 = Word.wrap 12 := hfirst _ expresses 12 [] rfl
  exact absurd hvalue (by decide)

end Dwarf

end LayoutGraph
