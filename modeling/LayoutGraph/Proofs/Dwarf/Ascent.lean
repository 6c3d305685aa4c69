-- Reads move forward. Every item of a unit takes a byte, so the walk through
-- the unit meets its entries at ascending places.
import LayoutGraph.Proofs.Dwarf.Outcome

namespace LayoutGraph.Dwarf

variable {ε σ α β : Type} {sections : Sections}

/-! ## The state of work -/

namespace Work

variable {state left found : σ}

theorem gives_get_iff :
    Gives sections state (get : Work ε σ σ) found left ↔ state = found ∧ state = left := by
  show (Except.ok state, state) = (Except.ok found, left) ↔ _
  simp

theorem gives_set_iff {s : σ} {u : PUnit} :
    Gives sections state (set s : Work ε σ PUnit) u left ↔ s = left := by
  show (Except.ok PUnit.unit, s) = (Except.ok u, left) ↔ _
  simp

end Work

/-! ## Reads -/

namespace Read

open Work

/-- A read that ends well moves its cursor on by `count` bytes or more. -/
def Advances (count : Nat) (read : Read α) : Prop :=
  ∀ sections c a c', Gives sections c read a c' → c.place + count ≤ c'.place

variable {count : Nat} {read : Read α} {next : α → Read β}

theorem advances_pure {a : α} : Advances 0 (pure a) := by
  intro sections c _ c' h
  obtain ⟨-, rfl⟩ := gives_pure_iff.mp h
  exact Nat.le_refl _

theorem advances_throw (d : Defect) : Advances count (throw d : Read α) :=
  fun _ _ _ _ h => (not_gives_throw h).elim

theorem advances_bind (hread : Advances count read) (hnext : ∀ a, Advances 0 (next a)) :
    Advances count (read >>= next) := by
  intro sections c b c' h
  obtain ⟨a, middle, hfirst, hrest⟩ := gives_bind_iff.mp h
  exact Nat.le_trans (hread _ _ _ _ hfirst) (hnext a _ _ _ _ hrest)

theorem Advances.weaken (h : Advances count read) : Advances 0 read :=
  fun _ _ _ _ hgives => Nat.le_trans (Nat.le_add_right _ _) (h _ _ _ _ hgives)

theorem advances_take (count : Nat) (relocates : Bool) :
    Advances count (take count relocates) := by
  intro sections c n c' h
  obtain ⟨_, _, hget, hrest⟩ := gives_bind_iff.mp h
  obtain ⟨rfl, rfl⟩ := gives_get_iff.mp hget
  by_cases hroom : c.place + count ≤ c.stop
  · rw [if_pos hroom] at hrest
    obtain ⟨found, _, -, hmove⟩ := gives_bind_iff.mp hrest
    cases found with
    | none => exact (not_gives_throw hmove).elim
    | some n =>
      obtain ⟨_, _, hset, hpure⟩ := gives_bind_iff.mp hmove
      obtain rfl := gives_set_iff.mp hset
      obtain ⟨-, rfl⟩ := gives_pure_iff.mp hpure
      exact Nat.le_refl _
  · rw [if_neg hroom] at hrest
    exact (not_gives_throw hrest).elim

theorem advances_byte : Advances 1 byte :=
  advances_bind (advances_take 1 false) fun _ => advances_pure

theorem advances_split (count : Nat) : Advances count (split count) := by
  intro sections c n c' h
  obtain ⟨_, _, hget, hrest⟩ := gives_bind_iff.mp h
  obtain ⟨rfl, rfl⟩ := gives_get_iff.mp hget
  by_cases hroom : c.place + count ≤ c.stop
  · rw [if_pos hroom] at hrest
    obtain ⟨_, _, hset, hpure⟩ := gives_bind_iff.mp hrest
    obtain rfl := gives_set_iff.mp hset
    obtain ⟨-, rfl⟩ := gives_pure_iff.mp hpure
    exact Nat.le_refl _
  · rw [if_neg hroom] at hrest
    exact (not_gives_throw hrest).elim

theorem advances_textBytesFrom (seen : List UInt8) (fuel : Nat) :
    Advances 0 (textBytesFrom seen fuel) := by
  induction fuel generalizing seen with
  | zero => exact advances_throw _
  | succ fuel ih =>
    refine advances_bind advances_byte.weaken fun b => ?_
    split
    · exact advances_pure
    · exact ih _

theorem advances_textBytes : Advances 0 textBytes := by
  intro sections c a c' h
  obtain ⟨_, _, hget, hrest⟩ := gives_bind_iff.mp h
  obtain ⟨rfl, rfl⟩ := gives_get_iff.mp hget
  exact advances_textBytesFrom _ _ _ _ _ _ hrest

theorem advances_unsignedFrom (bytes index : Nat) : Advances 1 (unsignedFrom bytes index) := by
  induction bytes generalizing index with
  | zero => exact advances_throw _
  | succ bytes ih =>
    refine advances_bind advances_byte fun b => ?_
    dsimp only
    split
    · exact advances_throw _
    · split
      · exact advances_bind (ih _).weaken fun _ => advances_pure
      · exact advances_pure

theorem advances_unsigned : Advances 1 unsigned := advances_unsignedFrom longest 0

theorem advances_signedFrom (bytes index : Nat) : Advances 0 (signedFrom bytes index) := by
  induction bytes generalizing index with
  | zero => exact advances_throw _
  | succ bytes ih =>
    refine advances_bind advances_byte.weaken fun b => ?_
    dsimp only
    split
    · exact advances_throw _
    · split
      · exact advances_bind (ih _) fun _ => advances_pure
      · exact advances_pure

theorem advances_signed : Advances 0 signed :=
  advances_bind (advances_signedFrom longest 0) fun _ => advances_pure

theorem advances_unsigned16 : Advances 0 unsigned16 := by
  refine advances_bind advances_byte.weaken fun first => ?_
  split
  · exact advances_pure
  · refine advances_bind advances_byte.weaken fun second => ?_
    dsimp only
    split
    · exact advances_pure
    · refine advances_bind advances_byte.weaken fun third => ?_
      split
      · exact advances_throw _
      · exact advances_pure

end Read

/-! ## Attributes -/

namespace AttributeValue

open Read

theorem advances_readBlock (length : Nat) : Advances 0 (readBlock length) :=
  advances_bind (advances_split length).weaken fun _ => advances_pure

theorem advances_readForm (e : Encoding) (spec : AttributeSpec) (form : Form) :
    Advances 0 (readForm e spec form) := by
  have number (count : Nat) (wrap : Nat → AttributeValue) :
      Advances 0 (do return wrap (← Read.number count)) :=
    advances_bind (advances_take count false).weaken fun _ => advances_pure
  have offset (count : Nat) (wrap : Nat → AttributeValue) :
      Advances 0 (do return wrap (← Read.offset count)) :=
    advances_bind (advances_take count true).weaken fun _ => advances_pure
  have unsigned (wrap : Nat → AttributeValue) : Advances 0 (do return wrap (← Read.unsigned)) :=
    advances_bind advances_unsigned.weaken fun _ => advances_pure
  cases form with
  | address => exact offset _ _
  | block lengthBytes =>
    exact advances_bind (advances_take _ _).weaken fun _ => advances_readBlock _
  | variableBlock | expression =>
    exact advances_bind advances_unsigned.weaken fun _ => advances_readBlock _
  | data bytes =>
    dsimp only [readForm]
    split
    · exact offset _ _
    · exact number _ _
  | data16 => exact advances_readBlock 16
  | text => exact advances_bind advances_textBytes fun _ => advances_pure
  | flag => exact advances_bind advances_byte.weaken fun _ => advances_pure
  | presentFlag => exact advances_pure
  | signed => exact advances_bind advances_signed fun _ => advances_pure
  | unsigned | textIndex | variableUnitReference | addressIndex | listIndex => exact unsigned _
  | textOffset | lineTextOffset | sectionOffset | supplementaryTextOffset | supplementaryOffset =>
    exact offset _ _
  | infoReference => exact offset _ _
  | fixedTextIndex bytes => exact number _ _
  | unitReference bytes => exact number _ _
  | signatureReference => exact number _ _
  | fixedAddressIndex bytes => exact number _ _
  | supplementaryReference bytes => exact number _ _
  | implicitConstant =>
    dsimp only [readForm]
    split
    · exact advances_pure
    · exact advances_throw _
  | indirect => exact advances_throw _

theorem advances_readCode (e : Encoding) (spec : AttributeSpec) (fuel code : Nat) :
    Advances 0 (readCode e spec fuel code) := by
  induction fuel generalizing code with
  | zero => exact advances_throw _
  | succ fuel ih =>
    unfold readCode
    split
    · exact advances_throw _
    · exact advances_bind advances_unsigned16 fun _ => ih _
    · exact advances_readForm e spec _

end AttributeValue

/-! ## Trials -/

open Work

namespace Trial

variable {trial : Trial α} {next : α → Trial β} {a : α} {b : β}

theorem run_bind_ok_iff : (trial >>= next).run.run sections = .ok b ↔
    ∃ a, trial.run.run sections = .ok a ∧ (next a).run.run sections = .ok b := by
  show (trial.run >>= ExceptT.bindCont next : Script (Except Defect β)).run sections = _ ↔ _
  rw [Script.run_bind]
  cases trial.run.run sections with
  | ok a =>
    show (next a).run.run sections = .ok b ↔ _
    simp
  | error d =>
    show Except.error d = .ok b ↔ _
    simp

theorem run_lift (script : Script α) :
    (liftM script : Trial α).run.run sections = .ok (script.run sections) := by
  show (script >>= fun a => pure (Except.ok a) : Script (Except Defect α)).run sections = _
  rw [Script.run_bind]
  rfl

theorem run_on_ok_iff {c : Cursor} {read : Read α} {found : α × Cursor} :
    (Read.on c read).run.run sections = .ok found ↔
      Gives sections c read found.1 found.2 := by
  unfold Read.on
  rw [run_bind_ok_iff]
  simp only [run_lift]
  unfold Gives outcome
  rcases (read.run.run c).run sections with ⟨r, rest⟩
  cases r with
  | ok a =>
    constructor
    · rintro ⟨_, hsame, h⟩
      cases hsame
      cases h
      rfl
    · intro h
      cases h
      exact ⟨_, rfl, rfl⟩
  | error d =>
    constructor
    · rintro ⟨_, hsame, h⟩
      cases hsame
      cases h
    · intro h
      cases h

end Trial

/-- The attributes are read forward. -/
theorem AttributeList.le_read (sections : Sections) (e : Encoding) (specs : List AttributeSpec)
    (c : Cursor) :
    c.place ≤ ((AttributeList.read e specs c).run sections).2.place := by
  induction specs generalizing c with
  | nil => exact Nat.le_refl _
  | cons spec rest ih =>
    unfold AttributeList.read
    rw [Script.run_bind]
    cases hread : ((Read.on c (AttributeValue.readCode e spec (c.stop + 1) spec.form)).run).run
      sections with
    | error defect => exact Nat.le_refl _
    | ok found =>
      obtain ⟨value, c'⟩ := found
      dsimp only
      rw [Script.run_bind]
      have hvalue := AttributeValue.advances_readCode e spec _ _ _ _ _ _
        (Trial.run_on_ok_iff.mp hread)
      exact Nat.le_trans hvalue (ih c')

/-! ## Items -/

/-- The place after an item. -/
def Item.next : Item → Nat
  | .die d => d.next
  | .null next => next

namespace CompiledUnit

variable {u : CompiledUnit}

/-- An item starts with a code. Zero ends a row of siblings, and any other is that of an abbreviation,
by which the attributes of an entry are read. -/
theorem itemAt_cases {place : Nat} {item : Item}
    (h : (u.itemAt place).run.run sections = .ok item) :
    ∃ code c, Gives sections (u.cursorAt place) Read.unsigned code c ∧
      (code = 0 ∧ item = .null (u.placeOf c) ∨
        code ≠ 0 ∧ ∃ a attributes c', (u.abbreviations.find? fun a => a.code = code) = some a ∧
          (AttributeList.read u.encoding a.attributes c).run sections = (attributes, c') ∧
          item = .die ⟨place, a.tag, a.hasChildren, attributes, u.placeOf c'⟩) := by
  obtain ⟨⟨code, c⟩, hcode, hrest⟩ := Trial.run_bind_ok_iff.mp h
  refine ⟨code, c, Trial.run_on_ok_iff.mp hcode, ?_⟩
  dsimp only at hrest
  by_cases hzero : code = 0
  · rw [if_pos hzero] at hrest
    cases hrest
    exact .inl ⟨hzero, rfl⟩
  · rw [if_neg hzero] at hrest
    cases habbreviation : u.abbreviations.find? fun a => a.code = code with
    | none =>
      rw [habbreviation] at hrest
      cases hrest
    | some a =>
      rw [habbreviation] at hrest
      obtain ⟨⟨attributes, c'⟩, hattributes, hpure⟩ := Trial.run_bind_ok_iff.mp hrest
      rw [Trial.run_lift] at hattributes
      cases hpure
      exact .inr ⟨hzero, a, attributes, c', rfl, Except.ok.inj hattributes, rfl⟩

/-- An item takes a byte or more, and an entry starts where it is looked for. -/
theorem itemAt_ok {place : Nat} {item : Item}
    (h : (u.itemAt place).run.run sections = .ok item) :
    place < item.next ∧ ∀ d, item = .die d → d.place = place := by
  obtain ⟨code, c, hcode, hitem⟩ := itemAt_cases h
  have hstart : u.start + place + 1 ≤ c.place := Read.advances_unsigned _ _ _ _ hcode
  obtain ⟨-, rfl⟩ | ⟨-, a, attributes, c', -, hattributes, rfl⟩ := hitem
  · refine ⟨?_, fun _ h => by cases h⟩
    show place < c.place - u.start
    omega
  · have hforward := AttributeList.le_read sections u.encoding a.attributes c
    rw [hattributes] at hforward
    refine ⟨?_, fun _ h => by cases h; rfl⟩
    show place < c'.place - u.start
    dsimp only at hforward
    omega

end CompiledUnit

/-! ## The walk -/

/-- Behind what was seen, latest first, stand entries at ascending places, from a place on. -/
def Ascends (seen : List (Int × Die)) (place : Nat) (r : Readable (Int × Die)) : Prop :=
  ∃ later, r.items = seen.reverse ++ later ∧
    later.Pairwise (fun a b => a.2.place < b.2.place) ∧ ∀ p ∈ later, place ≤ p.2.place

section Ascends

variable {seen : List (Int × Die)} {place place' : Nat} {r : Readable (Int × Die)}

theorem ascends_found (defect : Option Defect) : Ascends seen place (.found seen defect) :=
  ⟨[], (List.append_nil _).symm, .nil, fun _ h => by cases h⟩

theorem Ascends.from_before (h : Ascends seen place' r) (hle : place ≤ place') :
    Ascends seen place r := by
  obtain ⟨later, hitems, hascends, hbound⟩ := h
  exact ⟨later, hitems, hascends, fun p hp => Nat.le_trans hle (hbound p hp)⟩

theorem Ascends.of_cons {step : Int} {d : Die} (h : Ascends ((step, d) :: seen) place' r)
    (hd : d.place = place) (hlt : place < place') : Ascends seen place r := by
  obtain ⟨later, hitems, hascends, hbound⟩ := h
  refine ⟨(step, d) :: later, ?items, .cons ?_ hascends, ?_⟩
  case items => rw [hitems, List.reverse_cons, List.append_assoc, List.singleton_append]
  · intro p hp
    exact Nat.lt_of_lt_of_le (hd ▸ hlt) (hbound p hp)
  · intro p hp
    rcases List.mem_cons.mp hp with rfl | hp
    · exact Nat.le_of_eq hd.symm
    · exact Nat.le_trans (Nat.le_of_lt hlt) (hbound p hp)

end Ascends

namespace CompiledUnit

variable {u : CompiledUnit}

theorem walkFrom_ascends (seen : List (Int × Die)) (fuel place : Nat) (step : Int) :
    Ascends seen place ((u.walkFrom seen fuel place step).run sections) := by
  induction fuel generalizing seen place step with
  | zero => exact ascends_found none
  | succ fuel ih =>
    unfold walkFrom
    by_cases hend : u.length ≤ place
    · rw [if_pos hend]
      exact ascends_found none
    · rw [if_neg hend, Script.run_bind]
      cases hitem : (u.itemAt place).run.run sections with
      | error defect => exact ascends_found (some defect)
      | ok item =>
        obtain ⟨hnext, hplace⟩ := itemAt_ok hitem
        cases item with
        | null next => exact (ih seen next (step - 1)).from_before (Nat.le_of_lt hnext)
        | die d =>
          dsimp only
          cases d.attributes.defect with
          | some defect => exact (ascends_found (some defect)).of_cons (hplace d rfl) hnext
          | none => exact (ih _ _ _).of_cons (hplace d rfl) hnext

/-- A walk through a unit meets its entries at ascending places. -/
theorem walk_ascends (u : CompiledUnit) (sections : Sections) :
    ((u.walk.run sections).items.map fun p => p.2.place).Pairwise (· < ·) := by
  obtain ⟨later, hitems, hascends, -⟩ := walkFrom_ascends [] (u.length + 1) u.headerBytes 0
  unfold walk
  rw [hitems]
  exact List.pairwise_map.mpr hascends

end CompiledUnit

end LayoutGraph.Dwarf
