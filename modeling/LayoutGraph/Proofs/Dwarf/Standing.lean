-- Where the values of attributes stand: the abbreviation of an entry names its
-- attributes and their forms in order, and each value begins where the one
-- before it ends. What is read there is the value that the entry has.
import LayoutGraph.Proofs.Dwarf.Number
import LayoutGraph.Proofs.Dwarf.Parts

namespace LayoutGraph.Dwarf

open Work

variable {sections : Sections} {e : Encoding} {wanted : AttributeName} {form : Form}
  {c c' : Cursor} {value : AttributeValue}

/-! ## Forms -/

namespace AttributeValue

/-- The form of a code, past the forms that are found in the data. -/
def findForm : (fuel code : Nat) → Read Form
  | 0, _ => throw .endOfInput
  | fuel + 1, code =>
    match Form.ofCode? code with
    | none => throw .unknownForm
    | some .indirect => do findForm fuel (← Read.unsigned16)
    | some form => return form

/-- A value is read in its form, where the form was found. -/
theorem gives_readCode {spec : AttributeSpec} {fuel code : Nat} {next : Cursor}
    (hform : Gives sections c (findForm fuel code) form c')
    (hvalue : Gives sections c' (readForm e spec form) value next) :
    Gives sections c (readCode e spec fuel code) value next := by
  induction fuel generalizing c code with
  | zero => exact (not_gives_throw hform).elim
  | succ fuel ih =>
    unfold findForm at hform
    unfold readCode
    cases hcode : Form.ofCode? code with
    | none =>
      rw [hcode] at hform
      exact (not_gives_throw hform).elim
    | some found =>
      rw [hcode] at hform
      cases found
      case indirect =>
        obtain ⟨inner, middle, hinner, hrest⟩ := gives_bind_iff.mp hform
        exact gives_bind_iff.mpr ⟨inner, middle, hinner, ih hrest⟩
      all_goals
        obtain ⟨rfl, rfl⟩ := gives_pure_iff.mp hform
        exact hvalue

end AttributeValue

/-! ## Attributes -/

namespace AttributeList

/-- Of the attributes that are read from a cursor on, the first of a name has its value in a form at
a cursor. -/
inductive Stands (sections : Sections) (e : Encoding) (wanted : AttributeName) :
    List AttributeSpec → Cursor → Form → Cursor → Prop
  | here {spec : AttributeSpec} {rest : List AttributeSpec} {c c' : Cursor} {form : Form} :
    spec.name = wanted →
    Gives sections c (AttributeValue.findForm (c.stop + 1) spec.form) form c' →
    Stands sections e wanted (spec :: rest) c form c'
  | later {spec : AttributeSpec} {rest : List AttributeSpec} {c next c' : Cursor}
    {value : AttributeValue} {form : Form} : spec.name ≠ wanted →
    Gives sections c (AttributeValue.readCode e spec (c.stop + 1) spec.form) value next →
    Stands sections e wanted rest next form c' → Stands sections e wanted (spec :: rest) c form c'

theorem run_read_cons {spec : AttributeSpec} {rest : List AttributeSpec} {next : Cursor}
    (h : Gives sections c (AttributeValue.readCode e spec (c.stop + 1) spec.form) value next) :
    ((read e (spec :: rest) c).run sections).1 =
      ((read e rest next).run sections).1.cons ⟨spec.name, value⟩ := by
  have hrun : (Read.on c (AttributeValue.readCode e spec (c.stop + 1) spec.form)).run.run sections =
      .ok (value, next) := Trial.run_on_ok_iff.mpr h
  rw [AttributeList.read, Script.run_bind, hrun]
  dsimp only
  rw [Script.run_bind]
  rfl

/-- The same, with what the abbreviation says of the attribute. -/
inductive Reaches (sections : Sections) (e : Encoding) (wanted : AttributeName) :
    List AttributeSpec → Cursor → AttributeSpec → Form → Cursor → Prop
  | here {spec : AttributeSpec} {rest : List AttributeSpec} {c c' : Cursor} {form : Form} :
    spec.name = wanted →
    Gives sections c (AttributeValue.findForm (c.stop + 1) spec.form) form c' →
    Reaches sections e wanted (spec :: rest) c spec form c'
  | later {spec wantedSpec : AttributeSpec} {rest : List AttributeSpec} {c next c' : Cursor}
    {value : AttributeValue} {form : Form} : spec.name ≠ wanted →
    Gives sections c (AttributeValue.readCode e spec (c.stop + 1) spec.form) value next →
    Reaches sections e wanted rest next wantedSpec form c' →
    Reaches sections e wanted (spec :: rest) c wantedSpec form c'

theorem Stands.reaches {specs : List AttributeSpec} (h : Stands sections e wanted specs c form c') :
    ∃ spec, Reaches sections e wanted specs c spec form c' := by
  induction h with
  | here hname hform => exact ⟨_, .here hname hform⟩
  | later hname hread _ ih => exact ih.imp fun _ hrest => .later hname hread hrest

theorem Reaches.name {specs : List AttributeSpec} {spec : AttributeSpec}
    (h : Reaches sections e wanted specs c spec form c') : spec.name = wanted := by
  induction h with
  | here hname => exact hname
  | later _ _ _ ih => exact ih

/-- What is read where the value stands is the value. -/
theorem Reaches.find_read {specs : List AttributeSpec} {spec : AttributeSpec} {next : Cursor}
    (h : Reaches sections e wanted specs c spec form c')
    (reads : Gives sections c' (AttributeValue.readForm e spec form) value next) :
    (((read e specs c).run sections).1.items.find? fun a => a.name = wanted) =
      some ⟨wanted, value⟩ := by
  induction h with
  | here hname hform =>
    rw [run_read_cons (AttributeValue.gives_readCode hform reads)]
    subst hname
    exact List.find?_cons_of_pos (decide_eq_true rfl)
  | later hname hread _ ih =>
    rw [run_read_cons hread]
    exact (List.find?_cons_of_neg (by simpa using hname)).trans (ih reads)

end AttributeList

/-! ## Entries -/

namespace CompiledUnit

variable {u : CompiledUnit} {d : Die}

/-- The entry at a place of the unit has the value of an attribute in a form at a cursor. -/
inductive Stands (sections : Sections) (u : CompiledUnit) (place : Nat) (wanted : AttributeName)
    (form : Form) (c' : Cursor) : Prop
  | mk {code : Nat} {c : Cursor} {a : Abbreviation} :
    Gives sections (u.cursorAt place) Read.unsigned code c → code ≠ 0 →
    (u.abbreviations.find? fun a => a.code = code) = some a →
    AttributeList.Stands sections u.encoding wanted a.attributes c form c' →
    Stands sections u place wanted form c'

/-- The same, with what the abbreviation says of the attribute. -/
inductive Reaches (sections : Sections) (u : CompiledUnit) (place : Nat) (wanted : AttributeName)
    (spec : AttributeSpec) (form : Form) (c' : Cursor) : Prop
  | mk {code : Nat} {c : Cursor} {a : Abbreviation} :
    Gives sections (u.cursorAt place) Read.unsigned code c → code ≠ 0 →
    (u.abbreviations.find? fun a => a.code = code) = some a →
    AttributeList.Reaches sections u.encoding wanted a.attributes c spec form c' →
    Reaches sections u place wanted spec form c'

theorem Reaches.name {place : Nat} {spec : AttributeSpec}
    (h : u.Reaches sections place wanted spec form c') : spec.name = wanted := by
  obtain ⟨-, -, -, hreaches⟩ := h
  exact hreaches.name

/-- The entry at a place of the unit has a number as the value of an attribute, stored in a form for
constants. -/
def Holds (sections : Sections) (u : CompiledUnit) (place : Nat) (wanted : AttributeName)
    (form : Form) (v : Nat) : Prop :=
  ∃ c bytes, u.Stands sections place wanted form c ∧ c.Shows sections bytes ∧
    form.Stores (c.littleEndian sections) v bytes

/-- The entry at a place of the unit has a number with a sign as the value of an attribute. -/
def Keeps (sections : Sections) (u : CompiledUnit) (place : Nat) (wanted : AttributeName)
    (v : Int) : Prop :=
  ∃ spec form c bytes, u.Reaches sections place wanted spec form c ∧ c.Shows sections bytes ∧
    form.Keeps (c.littleEndian sections) spec v bytes

/-- What is read where a value stands is the value that the entry has. -/
theorem Reaches.value? {spec : AttributeSpec} {next : Cursor}
    (h : u.Reaches sections d.place wanted spec form c')
    (item : (u.itemAt d.place).run.run sections = .ok (.die d))
    (reads : Gives sections c' (AttributeValue.readForm u.encoding spec form) value next) :
    d.value? wanted = some value := by
  obtain @⟨code, c, a, hcode, hzero, habbreviation, hreaches⟩ := h
  obtain ⟨code', start, hcode', hitem⟩ := itemAt_cases item
  cases Eq.trans hcode.symm hcode'
  obtain ⟨hnull, -⟩ | ⟨-, a', attributes, _, habbreviation', hattributes, hd⟩ := hitem
  · exact absurd hnull hzero
  · obtain rfl := Option.some.inj (habbreviation.symm.trans habbreviation')
    have hlist : d.attributes = attributes := congrArg Die.attributes (Item.die.inj hd)
    have hfound := hreaches.find_read reads
    rw [hattributes] at hfound
    unfold Die.value?
    rw [hlist, hfound]
    rfl

theorem Stands.value? (h : u.Stands sections d.place wanted form c')
    (item : (u.itemAt d.place).run.run sections = .ok (.die d))
    (reads : ∀ spec : AttributeSpec, spec.name = wanted →
      ∃ next, Gives sections c' (AttributeValue.readForm u.encoding spec form) value next) :
    d.value? wanted = some value := by
  obtain ⟨hcode, hzero, habbreviation, hstands⟩ := h
  obtain ⟨spec, hreaches⟩ := hstands.reaches
  obtain ⟨_, hvalue⟩ := reads spec hreaches.name
  have hthere : u.Reaches sections d.place wanted spec form c' :=
    ⟨hcode, hzero, habbreviation, hreaches⟩
  exact hthere.value? item hvalue

/-! ## Entries of a unit -/

/-- The entry is one of the unit: it stands at its place. -/
def Has (sections : Sections) (u : CompiledUnit) (d : Die) : Prop :=
  (u.itemAt d.place).run.run sections = .ok (.die d)

theorem has_of_itemAt {place : Nat} (h : (u.itemAt place).run.run sections = .ok (.die d)) :
    u.Has sections d := by
  obtain rfl := (itemAt_ok h).2 d rfl
  exact h

/-- What holds of each entry that stands at a place before the end holds of all that a walk
meets. -/
theorem forall_mem_walkFrom {P : Die → Prop}
    (hP : ∀ place d, place < u.length → (u.itemAt place).run.run sections = .ok (.die d) → P d)
    {seen : List (Int × Die)} (hseen : ∀ p ∈ seen, P p.2) (fuel place : Nat) (step : Int) :
    ∀ p ∈ ((u.walkFrom seen fuel place step).run sections).items, P p.2 := by
  have ends {seen : List (Int × Die)} (hseen : ∀ p ∈ seen, P p.2) (defect : Option Defect) :
      ∀ p ∈ (Readable.found seen defect).items, P p.2 :=
    fun p hp => hseen p (List.mem_reverse.mp hp)
  induction fuel generalizing seen place step with
  | zero => exact ends hseen none
  | succ fuel ih =>
    unfold walkFrom
    split
    · exact ends hseen none
    · rename_i hbefore
      rw [Script.run_bind]
      cases hitem : (u.itemAt place).run.run sections with
      | error defect => exact ends hseen (some defect)
      | ok item =>
        cases item with
        | null next => exact ih hseen next (step - 1)
        | die d =>
          have hmore : ∀ p ∈ (step, d) :: seen, P p.2 := by
            intro p hp
            rcases List.mem_cons.mp hp with rfl | hp
            · exact hP place d (Nat.lt_of_not_le hbefore) hitem
            · exact hseen p hp
          dsimp only
          cases d.attributes.defect with
          | some defect => exact ends hmore (some defect)
          | none => exact ih hmore _ _

theorem has_of_mem_siblingsFrom {seen : List Die} (hseen : ∀ d ∈ seen, u.Has sections d)
    (fuel place depth : Nat) :
    ∀ d ∈ ((u.siblingsFrom seen fuel place depth).run sections).items, u.Has sections d := by
  have ends {seen : List Die} (hseen : ∀ d ∈ seen, u.Has sections d) (defect : Option Defect) :
      ∀ d ∈ (Readable.found seen defect).items, u.Has sections d :=
    fun d hd => hseen d (List.mem_reverse.mp hd)
  induction fuel generalizing seen place depth with
  | zero => exact ends hseen none
  | succ fuel ih =>
    unfold siblingsFrom
    split
    · exact ends hseen none
    · rw [Script.run_bind]
      cases hitem : (u.itemAt place).run.run sections with
      | error defect => exact ends hseen (some defect)
      | ok item =>
        cases item with
        | null next =>
          cases depth with
          | zero => exact ends hseen none
          | succ depth => exact ih hseen next depth
        | die d =>
          have hmore : ∀ other ∈ (if depth = 0 then d :: seen else seen), u.Has sections other := by
            intro other hother
            split at hother
            · rcases List.mem_cons.mp hother with rfl | hother
              · exact has_of_itemAt hitem
              · exact hseen other hother
            · exact hseen other hother
          dsimp only
          split
          · exact ih hmore _ _
          · exact ends hmore _
          · exact ih hmore _ _

theorem has_of_mem_walk {p : Int × Die} (h : p ∈ (u.walk.run sections).items) :
    u.Has sections p.2 :=
  forall_mem_walkFrom (fun _ _ _ => has_of_itemAt) (List.forall_mem_nil _) _ _ _ p h

/-- An entry that a walk meets stands behind the header of the unit and before its end. -/
theorem place_of_mem_walk {p : Int × Die} (h : p ∈ (u.walk.run sections).items) :
    u.headerBytes ≤ p.2.place ∧ p.2.place < u.length := by
  constructor
  · obtain ⟨later, hitems, -, hfrom⟩ := walkFrom_ascends [] (u.length + 1) u.headerBytes 0
    refine hfrom p ?_
    unfold walk at h
    rwa [hitems] at h
  · have before (place : Nat) (d : Die) (hplace : place < u.length)
        (hitem : (u.itemAt place).run.run sections = .ok (.die d)) : d.place < u.length := by
      rw [(itemAt_ok hitem).2 d rfl]
      exact hplace
    exact forall_mem_walkFrom before (List.forall_mem_nil _) _ _ _ p h

theorem has_of_mem_children {child : Die} (h : child ∈ ((u.children d).run sections).items) :
    u.Has sections child := by
  unfold children at h
  split at h
  · split at h
    · cases h
    · exact has_of_mem_siblingsFrom (List.forall_mem_nil _) _ _ _ child h
  · cases h

end CompiledUnit

end LayoutGraph.Dwarf
