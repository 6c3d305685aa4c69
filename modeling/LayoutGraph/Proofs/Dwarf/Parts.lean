-- What one entry describes. Its tag decides the kind of type, and of its
-- children each that counts gives one part of it.
import LayoutGraph.Proofs.Dwarf.Outcome

namespace LayoutGraph.Dwarf

/-! ## What counts -/

/-- The tags of entries that describe types. -/
def typeTags : List Tag :=
  [.baseType, .unspecifiedType, .subroutineType, .structureType, .classType, .unionType,
    .enumerationType, .arrayType, .pointerType, .referenceType, .rvalueReferenceType, .typedef,
    .constType, .volatileType, .restrictType, .atomicType]

namespace Die

def describesType (d : Die) : Bool := decide (d.tag ∈ typeTags)

/-- The value of the first attribute of the wanted name. -/
def value? (d : Die) (wanted : AttributeName) : Option AttributeValue :=
  (d.attributes.items.find? fun a => a.name = wanted).map Attribute.value

def carries (d : Die) (wanted : AttributeName) : Bool := (d.value? wanted).isSome

def sets (d : Die) (flag : AttributeName) : Bool := (d.value? flag).any AttributeValue.isSet

/-- A member that has a type and is no external declaration. -/
def isField (d : Die) : Bool :=
  decide (d.tag = .member) && d.carries .type && !(d.sets .external && d.sets .declaration)

/-- An enumerator that has a name. -/
def isConstant (d : Die) : Bool := decide (d.tag = .enumerator) && d.carries .name

/-- A subrange or an enumeration, which stands for an axis of an array. -/
def isAxis (d : Die) : Bool := decide (d.tag = .subrangeType ∨ d.tag = .enumerationType)

end Die

namespace Scope

open Work Decoding

variable {s : Scope} {sections : Sections} {d : Die} {wanted : AttributeName}
  {log left : Array Log.Event}

/-! ## Attributes -/

theorem gives_attribute? {o : Option AttributeValue}
    (h : Gives sections log (attribute? d wanted) o left) : o = d.value? wanted := by
  obtain ⟨hfind, -⟩ := gives_settle_iff.mp h
  unfold AttributeList.find? at hfind
  unfold Die.value?
  cases hitem : d.attributes.items.find? fun a => a.name = wanted with
  | some a =>
    rw [hitem] at hfind
    cases hfind
    rfl
  | none =>
    rw [hitem] at hfind
    cases hdefect : d.attributes.defect with
    | some defect =>
      rw [hdefect] at hfind
      cases hfind
    | none =>
      rw [hdefect] at hfind
      cases hfind
      rfl

theorem gives_hasFlag {b : Bool} (h : Gives sections log (hasFlag d wanted) b left) :
    b = d.sets wanted := by
  obtain ⟨o, ho, rfl⟩ := gives_map_iff.mp h
  rw [gives_attribute? ho]
  rfl

theorem gives_isStatic {b : Bool} (h : Gives sections log (isStatic d) b left) :
    b = (d.sets .external && d.sets .declaration) := by
  obtain ⟨external, middle, hexternal, hrest⟩ := gives_bind_iff.mp h
  rw [gives_hasFlag hexternal] at hrest
  cases hsets : d.sets .external with
  | true =>
    rw [hsets, if_pos rfl] at hrest
    rw [Bool.true_and]
    exact gives_hasFlag hrest
  | false =>
    rw [hsets, if_neg (by simp)] at hrest
    obtain ⟨rfl, -⟩ := gives_pure_iff.mp hrest
    rfl

theorem gives_name? {o : Option String} (h : Gives sections log (s.name? d) o left) :
    o.isSome = d.carries .name := by
  obtain ⟨v, middle, hv, hrest⟩ := gives_bind_iff.mp h
  have hvalue := gives_attribute? hv
  unfold Die.carries
  rw [← hvalue]
  cases v with
  | none =>
    obtain ⟨rfl, -⟩ := gives_pure_iff.mp hrest
    rfl
  | some v =>
    obtain ⟨text, -, rfl⟩ := gives_map_iff.mp hrest
    rfl

theorem gives_type? {o : Option EntryId} (h : Gives sections log (s.type? d) o left) :
    o.isSome = d.carries .type := by
  obtain ⟨v, middle, hv, hrest⟩ := gives_bind_iff.mp h
  have hvalue := gives_attribute? hv
  unfold Die.carries
  rw [← hvalue]
  cases v with
  | none =>
    obtain ⟨rfl, -⟩ := gives_pure_iff.mp hrest
    rfl
  | some v =>
    cases v
    case unitReference | infoReference | signatureReference =>
      obtain ⟨rfl, -⟩ := gives_pure_iff.mp hrest
      rfl
    all_goals
      obtain ⟨_, -, rfl⟩ := gives_map_iff.mp hrest
      rfl

/-! ## Children -/

theorem gives_member? {o : Option Member} (h : Gives sections log (s.member? d) o left) :
    o.isSome = d.isField := by
  unfold member? at h
  unfold Die.isField
  by_cases htag : d.tag = .member
  · rw [if_neg (not_not.mpr htag)] at h
    obtain ⟨static, _, hstatic, hrest⟩ := gives_bind_iff.mp h
    rw [← gives_isStatic hstatic, decide_eq_true htag, Bool.true_and]
    cases static with
    | true =>
      obtain ⟨rfl, -⟩ := gives_pure_iff.mp hrest
      rw [Bool.not_true, Bool.and_false]
      rfl
    | false =>
      obtain ⟨type, _, htype, hmember⟩ := gives_bind_iff.mp hrest
      rw [← gives_type? htype, Bool.not_false, Bool.and_true]
      cases type with
      | none =>
        obtain ⟨_, -, rfl⟩ := gives_map_iff.mp hmember
        rfl
      | some type =>
        obtain ⟨_, -, rfl⟩ := gives_map_iff.mp hmember
        rfl
  · rw [if_pos htag] at h
    obtain ⟨rfl, -⟩ := gives_pure_iff.mp h
    rw [decide_eq_false htag, Bool.false_and, Bool.false_and]
    rfl

theorem gives_constant? {o : Option Constant} (h : Gives sections log (s.constant? d) o left) :
    o.isSome = d.isConstant := by
  unfold constant? at h
  unfold Die.isConstant
  by_cases htag : d.tag = .enumerator
  · rw [if_neg (not_not.mpr htag)] at h
    obtain ⟨name, _, hname, hrest⟩ := gives_bind_iff.mp h
    rw [← gives_name? hname, decide_eq_true htag, Bool.true_and]
    cases name with
    | none =>
      obtain ⟨rfl, -⟩ := gives_pure_iff.mp hrest
      rfl
    | some name =>
      obtain ⟨_, -, rfl⟩ := gives_map_iff.mp hrest
      rfl
  · rw [if_pos htag] at h
    obtain ⟨rfl, -⟩ := gives_pure_iff.mp h
    rw [decide_eq_false htag, Bool.false_and]
    rfl

theorem gives_extent? {o : Option Nat} (h : Gives sections log (extent? d) o left) :
    o.isSome = d.isAxis := by
  unfold extent? at h
  unfold Die.isAxis
  by_cases htag : d.tag ≠ .subrangeType ∧ d.tag ≠ .enumerationType
  · rw [if_pos htag] at h
    obtain ⟨rfl, -⟩ := gives_pure_iff.mp h
    exact (decide_eq_false (not_or.mpr htag)).symm
  · rw [if_neg htag] at h
    rw [decide_eq_true (by rwa [← not_or, not_not] at htag)]
    obtain ⟨count, _, -, hrest⟩ := gives_bind_iff.mp h
    cases count with
    | some count =>
      obtain ⟨rfl, -⟩ := gives_pure_iff.mp hrest
      rfl
    | none =>
      obtain ⟨_, _, -, hupper⟩ := gives_bind_iff.mp hrest
      obtain ⟨_, -, rfl⟩ := gives_map_iff.mp hupper
      rfl

/-! ## The log makes no difference -/

theorem ignoresLog_attribute? : (attribute? d wanted).IgnoresLog sections :=
  ignoresLog_settle _ _

theorem ignoresLog_number? : (number? d wanted).IgnoresLog sections :=
  ignoresLog_bind ignoresLog_attribute? fun _ => ignoresLog_pure

theorem ignoresLog_hasFlag : (hasFlag d wanted).IgnoresLog sections :=
  ignoresLog_bind ignoresLog_attribute? fun _ => ignoresLog_pure

theorem ignoresLog_isStatic : (isStatic d).IgnoresLog sections := by
  refine ignoresLog_bind ignoresLog_hasFlag fun external => ?_
  cases external with
  | true => exact ignoresLog_hasFlag
  | false => exact ignoresLog_pure

theorem ignoresLog_name? : (s.name? d).IgnoresLog sections := by
  refine ignoresLog_bind ignoresLog_attribute? fun v => ?_
  cases v with
  | none => exact ignoresLog_pure
  | some v =>
    exact ignoresLog_bind (ignoresLog_bind (ignoresLog_during _ _) fun _ => ignoresLog_pure)
      fun _ => ignoresLog_pure

theorem ignoresLog_type? : (s.type? d).IgnoresLog sections := by
  refine ignoresLog_bind ignoresLog_attribute? fun v => ?_
  cases v with
  | none => exact ignoresLog_pure
  | some v =>
    cases v
    case unitReference | infoReference | signatureReference => exact ignoresLog_pure
    all_goals exact ignoresLog_bind (ignoresLog_note _) fun _ => ignoresLog_pure

theorem ignoresLog_location? : (s.location? d).IgnoresLog sections := by
  refine ignoresLog_bind ignoresLog_attribute? fun v => ?_
  cases v with
  | none => exact ignoresLog_pure
  | some v =>
    dsimp only
    split
    · exact ignoresLog_pure
    · exact ignoresLog_pure
    · exact ignoresLog_bind (ignoresLog_during _ _) fun _ => ignoresLog_pure

theorem ignoresLog_member {type : EntryId} : (s.member d type).IgnoresLog sections := by
  refine ignoresLog_bind ignoresLog_name? fun name => ?_
  refine ignoresLog_bind ignoresLog_location? fun location => ?_
  refine ignoresLog_bind ignoresLog_number? fun bitSize => ?_
  refine ignoresLog_bind ignoresLog_number? fun dataBits => ?_
  dsimp only
  split
  · exact ignoresLog_bind ignoresLog_pure fun _ => ignoresLog_pure
  · exact ignoresLog_bind ignoresLog_number? fun _ => ignoresLog_pure

theorem ignoresLog_member? : (s.member? d).IgnoresLog sections := by
  unfold member?
  split
  · exact ignoresLog_pure
  · refine ignoresLog_bind ignoresLog_isStatic fun static => ?_
    cases static with
    | true => exact ignoresLog_pure
    | false =>
      refine ignoresLog_bind ignoresLog_type? fun type => ?_
      cases type with
      | none => exact ignoresLog_bind (ignoresLog_note _) fun _ => ignoresLog_pure
      | some type => exact ignoresLog_bind ignoresLog_member fun _ => ignoresLog_pure

theorem ignoresLog_constant? : (s.constant? d).IgnoresLog sections := by
  unfold constant?
  split
  · exact ignoresLog_pure
  · refine ignoresLog_bind ignoresLog_name? fun name => ?_
    cases name with
    | none => exact ignoresLog_pure
    | some name => exact ignoresLog_bind ignoresLog_attribute? fun _ => ignoresLog_pure

theorem ignoresLog_extent? : (extent? d).IgnoresLog sections := by
  unfold extent?
  split
  · exact ignoresLog_pure
  · refine ignoresLog_bind ignoresLog_number? fun count => ?_
    cases count with
    | some count => exact ignoresLog_pure
    | none =>
      exact ignoresLog_bind ignoresLog_number? fun _ =>
        ignoresLog_bind ignoresLog_number? fun _ => ignoresLog_pure

/-! ## Parts -/

/-- Each of the entries gives the part beside it. -/
def Parts {α : Type} (sections : Sections) (work : Die → Decoding (Option α)) :
    List Die → List α → Prop :=
  List.Forall₂ fun d a => (work d).result sections = .ok (some a)

/-- What is gathered from the children are the parts that some of them give, in order. -/
theorem parts_of_gather {α : Type} {task : Task} {work : Die → Decoding (Option α)}
    {pick : Die → Bool} {script : Script (Readable Die)} {children : List Die} {parts : List α}
    (ignores : ∀ d, (work d).IgnoresLog sections)
    (picks : ∀ d log o left, Gives sections log (work d) o left → o.isSome = pick d)
    (hchildren : script.run sections = ⟨children, none⟩)
    (h : Gives sections log (do .gather task work (← script) : Decoding (List α)) parts left) :
    Parts sections work (children.filter pick) parts := by
  obtain ⟨r, middle, hr, hgather⟩ := gives_bind_iff.mp h
  obtain ⟨rfl, -⟩ := gives_lift_iff.mp hr
  rw [hchildren] at hgather
  exact forall₂_of_gather (fun d _ => picks d)
    (fun d _ _ _ _ hwork => (ignores d).result_of_gives hwork) hgather

/-! ## What an entry describes -/

/-- The kinds of type that an entry describes. Those with parts have one for each child that gives
one, in the order of the children. -/
inductive Describes (s : Scope) (sections : Sections) (d : Die) (children : List Die) :
    EntryKind → Prop
  | base (tag : d.tag ∈ [.baseType, .unspecifiedType, .subroutineType]) :
    Describes s sections d children .base
  | struct {members : List Member} (tag : d.tag ∈ [.structureType, .classType])
    (parts : Parts sections s.member? (children.filter Die.isField) members) :
    Describes s sections d children (.compound .struct members (d.sets .declaration))
  | union {members : List Member} (tag : d.tag = .unionType)
    (parts : Parts sections s.member? (children.filter Die.isField) members) :
    Describes s sections d children (.compound .union members (d.sets .declaration))
  | enumeration {constants : List Constant} (tag : d.tag = .enumerationType)
    (parts : Parts sections s.constant? (children.filter Die.isConstant) constants) :
    Describes s sections d children (.enumeration constants)
  | array {element : EntryId} {extents : List Nat} (tag : d.tag = .arrayType)
    (parts : Parts sections extent? (children.filter Die.isAxis) extents) :
    Describes s sections d children (.array element extents)
  | pointer {target : Option EntryId}
    (tag : d.tag ∈ [.pointerType, .referenceType, .rvalueReferenceType]) :
    Describes s sections d children (.pointer target)
  | typedef {target : Option EntryId} (tag : d.tag = .typedef) :
    Describes s sections d children (.typedef target)
  | qualified {target : Option EntryId}
    (tag : d.tag ∈ [.constType, .volatileType, .restrictType, .atomicType]) :
    Describes s sections d children (.qualified target)

theorem members_of_gives_compound {kind : CompoundKind} {children : List Die} {k : EntryKind}
    (hchildren : (s.outline.children d).run sections = ⟨children, none⟩)
    (h : Gives sections log (s.compound kind d) k left) :
    ∃ members, k = .compound kind members (d.sets .declaration) ∧
      Parts sections s.member? (children.filter Die.isField) members := by
  obtain ⟨members, _, hmembers, hrest⟩ := gives_bind_iff.mp h
  obtain ⟨declaration, hflag, rfl⟩ := gives_map_iff.mp hrest
  rw [gives_hasFlag hflag]
  exact ⟨members, rfl, parts_of_gather (fun _ => ignoresLog_member?)
    (fun _ _ _ _ => gives_member?) hchildren hmembers⟩

/-- The kind of an entry is found where its tag is that of a type, and is one that it describes. -/
theorem gives_kind? {children : List Die} {o : Option EntryKind}
    (hchildren : (s.outline.children d).run sections = ⟨children, none⟩)
    (h : Gives sections log (s.kind? d) o left) :
    o.isSome = d.describesType ∧ ∀ k, o = some k → s.Describes sections d children k := by
  have found {k : EntryKind} (ho : some k = o) (htype : d.tag ∈ typeTags)
      (hk : s.Describes sections d children k) :
      o.isSome = d.describesType ∧ ∀ k, o = some k → s.Describes sections d children k := by
    subst ho
    refine ⟨(decide_eq_true htype).symm, ?_⟩
    rintro k ⟨⟩
    exact hk
  unfold kind? at h
  cases htag : d.tag <;> rw [htag] at h found
  case baseType | unspecifiedType | subroutineType =>
    obtain ⟨rfl, -⟩ := gives_pure_iff.mp h
    exact found rfl (by decide) (.base (by rw [htag]; decide))
  case structureType | classType =>
    obtain ⟨k, hk, ho⟩ := gives_map_iff.mp h
    obtain ⟨members, rfl, hparts⟩ := members_of_gives_compound hchildren hk
    exact found ho (by decide) (.struct (by rw [htag]; decide) hparts)
  case unionType =>
    obtain ⟨k, hk, ho⟩ := gives_map_iff.mp h
    obtain ⟨members, rfl, hparts⟩ := members_of_gives_compound hchildren hk
    exact found ho (by decide) (.union htag hparts)
  case enumerationType =>
    obtain ⟨constants, hconstants, ho⟩ := gives_map_iff.mp h
    have hparts := parts_of_gather (fun _ => ignoresLog_constant?)
      (fun _ _ _ _ => gives_constant?) hchildren hconstants
    exact found ho (by decide) (.enumeration htag hparts)
  case arrayType =>
    obtain ⟨element, _, -, hrest⟩ := gives_bind_iff.mp h
    obtain ⟨extents, hextents, ho⟩ := gives_map_iff.mp hrest
    have hparts := parts_of_gather (fun _ => ignoresLog_extent?)
      (fun _ _ _ _ => gives_extent?) hchildren hextents
    exact found ho (by decide) (.array htag hparts)
  case pointerType | referenceType | rvalueReferenceType =>
    obtain ⟨target, -, ho⟩ := gives_map_iff.mp h
    exact found ho (by decide) (.pointer (by rw [htag]; decide))
  case typedef =>
    obtain ⟨target, -, ho⟩ := gives_map_iff.mp h
    exact found ho (by decide) (.typedef htag)
  case constType | volatileType | restrictType | atomicType =>
    obtain ⟨target, -, ho⟩ := gives_map_iff.mp h
    exact found ho (by decide) (.qualified (by rw [htag]; decide))
  case member | subrangeType | enumerator | other =>
    obtain ⟨rfl, -⟩ := gives_pure_iff.mp h
    refine ⟨?_, fun _ h => by cases h⟩
    unfold Die.describesType
    rw [htag]
    rfl

end Scope

end LayoutGraph.Dwarf
