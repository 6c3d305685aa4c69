-- The law of targets: a reference to a type resolves to the type at the place
-- that it leads to, and one that leads to no type resolves to nothing, as long as
-- the place is a number of 32 bits. Of a greater one the low 32 bits are taken.
import LayoutGraph.Proofs.Dwarf.Origin
import LayoutGraph.Proofs.Dwarf.Stretch
import LayoutGraph.Proofs.Source.Coherent
import Mathlib.Data.List.Pairwise

namespace LayoutGraph.Dwarf

open Work Decoding

/-! ## The first of a list -/

section First

variable {α β : Type} {key : α → Nat} {l : List α} {f : α → Option β} {b : β}

/-- Where keys ascend, what is found is found in the item of the lowest key that gives something. -/
theorem findSome?_eq_some_iff_of_ascending (ascends : l.Pairwise fun a c => key a < key c) :
    l.findSome? f = some b ↔ ∃ a ∈ l, f a = some b ∧ ∀ c ∈ l, key c < key a → f c = none := by
  rw [List.findSome?_eq_some_iff]
  constructor
  · rintro ⟨before, a, after, rfl, ha, hbefore⟩
    obtain ⟨-, hafter, hcross⟩ := List.pairwise_append.mp ascends
    refine ⟨a, by simp, ha, fun c hc hlt => ?_⟩
    rcases List.mem_append.mp hc with hc | hc
    · exact hbefore c hc
    · rcases List.mem_cons.mp hc with rfl | hc
      · exact (Nat.lt_irrefl _ hlt).elim
      · exact (Nat.lt_asymm hlt ((List.pairwise_cons.mp hafter).1 c hc)).elim
  · rintro ⟨a, ha, hfa, hfirst⟩
    obtain ⟨before, after, rfl⟩ := List.append_of_mem ha
    obtain ⟨-, -, hcross⟩ := List.pairwise_append.mp ascends
    refine ⟨before, a, after, rfl, hfa, fun c hc => ?_⟩
    exact hfirst c (List.mem_append_left _ hc) (hcross c hc a (.head _))

end First

/-! ## Where references lead -/

namespace AttributeValue

/-- The value is a reference: to a place of its own unit, to an offset of `.debug_info`, or to a
type by its signature. -/
def IsReference : AttributeValue → Prop
  | .unitReference _ | .infoReference _ | .signatureReference _ => True
  | _ => False

end AttributeValue

variable {sections : Sections} {units : List CompiledUnit} {s t : Scope} {d : Die}
  {v : AttributeValue} {place : Nat}

theorem units_of_mem_scopes (h : s ∈ scopes units) : s.units = units := by
  obtain ⟨_, -, rfl⟩ := List.mem_map.mp h
  rfl

theorem eq_of_index (hs : s ∈ scopes units) (ht : t ∈ scopes units) (h : s.index = t.index) :
    s = t := by
  obtain ⟨⟨u, i⟩, hu, rfl⟩ := List.mem_map.mp hs
  obtain ⟨⟨w, j⟩, hw, rfl⟩ := List.mem_map.mp ht
  obtain rfl : i = j := h
  rw [List.mem_zipIdx_iff_getElem?] at hu hw
  cases hu.symm.trans hw
  rfl

namespace Scope

/-- The place of a unit that a reference leads to. An offset leads into the unit of `.debug_info`
with entries around it, a signature to the type of the first unit that has it. -/
inductive LeadsTo (s : Scope) : AttributeValue → Scope → Nat → Prop
  | own {place : Nat} : LeadsTo s (.unitReference place) s place
  | info {t : Scope} {place : Nat} : t ∈ scopes s.units → t.unit.inTypes = false →
    t.unit.holds place → LeadsTo s (.infoReference (t.unit.start + place)) t place
  | signature {t : Scope} {signature place : Nat} : t ∈ scopes s.units →
    t.unit.kind = .type signature place →
    (∀ r ∈ scopes s.units, r.index < t.index → ∀ other, r.unit.kind ≠ .type signature other) →
    LeadsTo s (.signatureReference signature) t place

/-- The id that a reference becomes. -/
def idOfReference (s : Scope) (d : Die) : AttributeValue → EntryId
  | .unitReference place => .ofUnit s.index place
  | .infoReference offset => s.idAt offset
  | .signatureReference signature => (s.idOfSignature? signature).getD (.ofUnit noUnit d.place)
  | _ => .ofUnit noUnit d.place

theorem result_type? (hv : d.value? .type = some v) (reference : v.IsReference) :
    (s.type? d).result sections = .ok (some (s.idOfReference d v)) := by
  have hfind : d.attributes.find? .type = .ok (some v) := by
    obtain ⟨a, ha, rfl⟩ := Option.map_eq_some_iff.mp hv
    unfold AttributeList.find?
    rw [ha]
  have hattribute : Gives sections #[] (attribute? d .type) (some v) #[] :=
    gives_settle_iff.mpr ⟨hfind, rfl⟩
  have hgives : Gives sections #[] (s.type? d) (some (s.idOfReference d v)) #[] := by
    refine gives_bind_iff.mpr ⟨some v, #[], hattribute, ?_⟩
    cases v
    case unitReference | infoReference | signatureReference => exact gives_pure_iff.mpr ⟨rfl, rfl⟩
    all_goals exact reference.elim
  exact ignoresLog_type?.result_of_gives hgives

/-! ## Offsets -/

/-- An offset of `.debug_info` lies among the entries of the unit. -/
def Spans (t : Scope) (offset : Nat) : Prop :=
  t.unit.inTypes = false ∧ t.unit.start ≤ offset ∧ t.unit.holds (offset - t.unit.start)

instance (t : Scope) (offset : Nat) : Decidable (t.Spans offset) :=
  inferInstanceAs (Decidable (_ ∧ _))

theorem idAt_eq (s : Scope) (offset : Nat) :
    s.idAt offset = (((scopes s.units).find? fun t => t.Spans offset).map fun t =>
      .ofUnit t.index (offset - t.unit.start)).getD (.ofUnit noUnit offset) := by
  unfold idAt scopes scopesFrom
  rw [List.find?_map]
  have hsame : (fun p : CompiledUnit × Nat => !p.1.inTypes && decide (p.1.start ≤ offset) &&
      p.1.holds (offset - p.1.start)) = (fun t : Scope => decide (t.Spans offset)) ∘
        fun p => ⟨s.units, p.2, p.1, p.1.outline⟩ := by
    funext p
    rw [Bool.eq_iff_iff, Function.comp_apply, decide_eq_true_iff]
    simp [Spans, and_assoc]
  dsimp only
  rw [hsame]
  cases List.find? _ _ <;> rfl

/-- No offset lies among the entries of two units. -/
theorem eq_of_spans {offset : Nat} (held : allUnits.result sections = .ok units)
    (hs : s ∈ scopes units) (ht : t ∈ scopes units) (hspans : s.Spans offset)
    (hother : t.Spans offset) : s = t := by
  -- Of two units one stops before the other starts, whichever comes first.
  have happart : (scopes units).Pairwise fun s t => s.Spans offset → ¬ t.Spans offset := by
    have hunits : (scopes units).map Scope.unit = units := by
      unfold scopes scopesFrom
      rw [List.map_map]
      exact List.zipIdx_map_fst 0 units
    have hrow := allUnits_pairwise held
    rw [← hunits] at hrow
    refine (List.pairwise_map.mp hrow).imp fun hstop hspans hother => ?_
    have hstop := hstop hspans.1 hother.1
    have hholds := hspans.2.2
    unfold CompiledUnit.holds at hholds
    simp only [Bool.and_eq_true, decide_eq_true_eq] at hholds
    have hstart := hother.2.1
    omega
  have : Std.Symm fun s t : Scope => s.Spans offset → ¬ t.Spans offset :=
    ⟨fun _ _ h hother hspans => h hspans hother⟩
  by_contra hne
  exact happart.forall hs ht hne hspans hother

theorem idAt_of_spans {offset : Nat} (held : allUnits.result sections = .ok units)
    (hs : s ∈ scopes units) (ht : t ∈ scopes units) (hspans : t.Spans offset) :
    s.idAt offset = .ofUnit t.index (offset - t.unit.start) := by
  rw [idAt_eq, units_of_mem_scopes hs]
  cases hfound : (scopes units).find? fun t => t.Spans offset with
  | none => exact absurd (decide_eq_true hspans) (List.find?_eq_none.mp hfound t ht)
  | some r =>
    have hr : r.Spans offset := by simpa using List.find?_some hfound
    rw [eq_of_spans held ht (List.mem_of_find?_eq_some hfound) hspans hr]
    rfl

theorem idAt_of_not_spans {offset : Nat} (h : ∀ t ∈ scopes s.units, ¬ t.Spans offset) :
    s.idAt offset = .ofUnit noUnit offset := by
  have hnone : ((scopes s.units).find? fun t => t.Spans offset) = none :=
    List.find?_eq_none.mpr fun t ht => by simpa using h t ht
  rw [idAt_eq, hnone]
  rfl

/-! ## Signatures -/

/-- What the unit gives for a signature. -/
def idIfSigned (signature : Nat) (t : Scope) : Option EntryId :=
  match t.unit.kind with
  | .type own place => if own = signature then some (.ofUnit t.index place) else none
  | .other => none

theorem idIfSigned_eq_some_iff {signature : Nat} {id : EntryId} :
    idIfSigned signature t = some id ↔
      ∃ place, t.unit.kind = .type signature place ∧ .ofUnit t.index place = id := by
  unfold idIfSigned
  cases t.unit.kind with
  | type own place => simp
  | other => simp

theorem idOfSignature?_eq_some_iff {signature : Nat} {id : EntryId} :
    s.idOfSignature? signature = some id ↔ ∃ t place,
      s.LeadsTo (.signatureReference signature) t place ∧ .ofUnit t.index place = id := by
  have hsame : s.idOfSignature? signature = (scopes s.units).findSome? (idIfSigned signature) := by
    unfold idOfSignature? scopes scopesFrom
    rw [List.findSome?_map]
    rfl
  rw [hsame, findSome?_eq_some_iff_of_ascending scopes_pairwise]
  constructor
  · rintro ⟨t, ht, hid, hfirst⟩
    obtain ⟨place, hkind, rfl⟩ := idIfSigned_eq_some_iff.mp hid
    refine ⟨t, place, .signature ht hkind fun r hr hlt other hother => ?_, rfl⟩
    have hnone := hfirst r hr hlt
    rw [idIfSigned_eq_some_iff.mpr ⟨other, hother, rfl⟩] at hnone
    cases hnone
  · rintro ⟨t, place, hleads, rfl⟩
    cases hleads with
    | signature ht hkind hfirst =>
      refine ⟨t, ht, idIfSigned_eq_some_iff.mpr ⟨place, hkind, rfl⟩, fun r hr hlt => ?_⟩
      refine Option.eq_none_iff_forall_ne_some.mpr fun id hid => ?_
      obtain ⟨other, hother, -⟩ := idIfSigned_eq_some_iff.mp hid
      exact hfirst r hr hlt other hother

/-! ## Ids of references -/

theorem LeadsTo.mem_scopes (hs : s ∈ scopes units) (h : s.LeadsTo v t place) :
    t ∈ scopes units := by
  rw [← units_of_mem_scopes hs]
  cases h with
  | own => rwa [units_of_mem_scopes hs]
  | info ht => exact ht
  | signature ht => exact ht

/-- A reference that leads somewhere becomes the id of the place. -/
theorem idOfReference_of_leadsTo (held : allUnits.result sections = .ok units)
    (hs : s ∈ scopes units) (h : s.LeadsTo v t place) :
    s.idOfReference d v = .ofUnit t.index place := by
  have ht := h.mem_scopes hs
  cases h with
  | own => rfl
  | @info _ place _ htypes hholds =>
    have hspans : t.Spans (t.unit.start + place) := by
      refine ⟨htypes, Nat.le_add_right _ _, ?_⟩
      rwa [Nat.add_sub_cancel_left]
    show s.idAt (t.unit.start + place) = _
    rw [idAt_of_spans held hs ht hspans, Nat.add_sub_cancel_left]
  | signature hmem hkind hfirst =>
    have hfound := idOfSignature?_eq_some_iff.mpr ⟨t, place, .signature hmem hkind hfirst, rfl⟩
    show (s.idOfSignature? _).getD _ = _
    rw [hfound]
    rfl

/-- One that leads nowhere becomes an id of no unit. -/
theorem idOfReference_of_not_leadsTo (reference : v.IsReference)
    (h : ∀ t place, ¬ s.LeadsTo v t place) :
    ∃ offset, s.idOfReference d v = .ofUnit noUnit offset := by
  cases v
  case unitReference place => exact (h s place .own).elim
  case infoReference offset =>
    refine ⟨offset, idAt_of_not_spans fun t ht hspans => ?_⟩
    refine h t (offset - t.unit.start) ?_
    have hleads : s.LeadsTo (.infoReference (t.unit.start + (offset - t.unit.start))) t _ :=
      .info ht hspans.1 hspans.2.2
    rwa [Nat.add_sub_cancel' hspans.2.1] at hleads
  case signatureReference signature =>
    have hnone : s.idOfSignature? signature = none := by
      refine Option.eq_none_iff_forall_ne_some.mpr fun id hid => ?_
      obtain ⟨t, place, hleads, -⟩ := idOfSignature?_eq_some_iff.mp hid
      exact h t place hleads
    refine ⟨d.place, ?_⟩
    show (s.idOfSignature? signature).getD _ = _
    rw [hnone]
    rfl
  all_goals exact reference.elim

end Scope

/-! ## Look-ups -/

section Lookups

variable {origin : String} {littleEndian : Bool} {image : Image} {events : List Log.Event}
  {target : Die} {id : EntryId}

theorem place_lt_of_mem_typeDies (short : ∀ u ∈ units, u.length < Word.halfCount)
    (ht : t ∈ scopes units) (htarget : target ∈ t.typeDies sections) :
    t.unit.headerBytes ≤ target.place ∧ t.unit.start + target.place < t.unit.stop ∧
      target.place < Word.halfCount := by
  obtain ⟨⟨step, hwalk⟩, -⟩ := Scope.mem_typeDies.mp htarget
  obtain ⟨hheader, hlength⟩ := CompiledUnit.place_of_mem_walk hwalk
  dsimp only at hheader hlength
  have hshort := short t.unit (unit_mem_of_mem_scopes ht)
  unfold CompiledUnit.length at hlength hshort
  exact ⟨hheader, by omega, by omega⟩

theorem ids_of_records {dies : List (Scope × Die)} {entries : List Entry}
    (h : List.Forall₂ (fun p e => p.1.Records sections p.2 e) dies entries) :
    entries.map Entry.id = dies.map fun p => p.1.idOf p.2 := by
  induction h with
  | nil => rfl
  | cons hhere _ ih => rw [List.map_cons, List.map_cons, ih, hhere.1]

/-- The entries that describe types come in the order of their units, and of their places in a
unit. -/
theorem typeDies_pairwise : (typeDies sections (scopes units)).Pairwise fun p q =>
    p.1.index < q.1.index ∨ p.1.index = q.1.index ∧ p.2.place < q.2.place := by
  unfold typeDies
  rw [List.pairwise_flatMap]
  constructor
  · intro s _
    have hascends := List.pairwise_map.mp (s.unit.walk_ascends sections)
    have hplaces : ((s.unit.walk.run sections).items.map Prod.snd).Pairwise fun a b =>
        a.place < b.place := List.pairwise_map.mpr hascends
    exact List.pairwise_map.mpr ((hplaces.filter _).imp fun hlt => .inr ⟨rfl, hlt⟩)
  · refine scopes_pairwise.imp fun hlt p hp q hq => ?_
    obtain ⟨_, -, rfl⟩ := List.mem_map.mp hp
    obtain ⟨_, -, rfl⟩ := List.mem_map.mp hq
    exact .inl hlt

/-- No two types have the same id. -/
theorem typeDies_ids_nodup (few : units.length < Scope.noUnit)
    (short : ∀ u ∈ units, u.length < Word.halfCount) :
    ((typeDies sections (scopes units)).map fun p => p.1.idOf p.2).Nodup := by
  have bounds {p : Scope × Die} (hp : p ∈ typeDies sections (scopes units)) :
      p.1.index < Word.halfCount ∧ p.2.place < Word.halfCount := by
    obtain ⟨hs, hd⟩ := mem_typeDies_scopes.mp hp
    have hindex := index_lt_of_mem_scopes hs
    unfold Scope.noUnit at few
    exact ⟨by unfold Word.halfCount; omega, (place_lt_of_mem_typeDies short hs hd).2.2⟩
  refine List.pairwise_map.mpr (typeDies_pairwise.imp_of_mem fun hp hq hlt hsame => ?_)
  have hraw := raw_ofUnit_lt (bounds hp).1 (bounds hq).1 (bounds hp).2 (bounds hq).2 hlt
  exact Nat.ne_of_lt hraw (congrArg EntryId.raw hsame)

/-- Of an id the low 32 bits are the place. -/
theorem ofUnit_eq_ofUnit_iff {index index' place place' : Nat} (hindex : index < Word.halfCount)
    (hindex' : index' < Word.halfCount) (hplace' : place' < Word.halfCount) :
    EntryId.ofUnit index place = EntryId.ofUnit index' place' ↔
      index = index' ∧ place' = place % Word.halfCount := by
  simp only [EntryId.ofUnit, EntryId.mk.injEq]
  unfold Word.halfCount at *
  omega

section Records

variable (records : List.Forall₂ (fun p e => p.1.Records sections p.2 e)
  (typeDies sections (scopes units)) image.entries)

include records

/-- The type of an entry answers for its id. -/
theorem entry_of_record (few : units.length < Scope.noUnit)
    (short : ∀ u ∈ units, u.length < Word.halfCount) (ht : t ∈ scopes units)
    (htarget : target ∈ t.typeDies sections) :
    ∃ e ∈ image.entries, e.id = t.idOf target ∧
      image.toSource.entry (t.idOf target) = .ok (image.answer e) := by
  obtain ⟨e, he, hid, -⟩ :=
    exists_of_mem_left (a := (t, target)) records (mem_typeDies_scopes.mpr ⟨ht, htarget⟩)
  have once : (image.entries.map Entry.id).Nodup := by
    rw [ids_of_records records]
    exact typeDies_ids_nodup few short
  refine ⟨e, he, hid, ?_⟩
  exact Image.entry_of_decoded ((Image.decoded?_eq_some_iff once).mpr ⟨he, hid⟩)

/-- An id of no type is unresolved. -/
theorem entry_of_no_record
    (h : ∀ t ∈ scopes units, ∀ target ∈ t.typeDies sections, t.idOf target ≠ id) :
    image.toSource.entry id = .error (.unresolved id) := by
  apply Image.entry_of_not_decoded
  apply Image.decoded?_eq_none_iff.mpr
  intro e he
  obtain ⟨p, hp, hid, -⟩ := exists_of_mem_right records he
  obtain ⟨ht, htarget⟩ := mem_typeDies_scopes.mp hp
  rw [hid]
  exact h p.1 ht p.2 htarget

/-- A place resolves to the type at its low 32 bits. -/
theorem entry_of_place (few : units.length < Scope.noUnit)
    (short : ∀ u ∈ units, u.length < Word.halfCount) (ht : t ∈ scopes units)
    (htarget : target ∈ t.typeDies sections) (hplace : target.place = place % Word.halfCount) :
    ∃ e ∈ image.entries, e.id = t.idOf target ∧
      image.toSource.entry (.ofUnit t.index place) = .ok (image.answer e) := by
  -- The id of a greater place is that of its low 32 bits, which is where the mistake comes from.
  have hid : EntryId.ofUnit t.index place = t.idOf target := by
    show _ = EntryId.ofUnit t.index target.place
    rw [hplace]
    simp only [EntryId.ofUnit, Nat.mod_mod]
  rw [hid]
  exact entry_of_record records few short ht htarget

/-- A place without a type at its low 32 bits is unresolved. -/
theorem entry_of_no_place (few : units.length < Scope.noUnit)
    (short : ∀ u ∈ units, u.length < Word.halfCount) (ht : t ∈ scopes units)
    (none : ∀ target ∈ t.typeDies sections, target.place ≠ place % Word.halfCount) :
    image.toSource.entry (.ofUnit t.index place) =
      .error (.unresolved (.ofUnit t.index place)) := by
  refine entry_of_no_record records fun r hr target htarget hsame => ?_
  have hindex := index_lt_of_mem_scopes ht
  have hindex' := index_lt_of_mem_scopes hr
  have hbound := (place_lt_of_mem_typeDies short hr htarget).2.2
  unfold Scope.noUnit at few
  have hhalf : (4294967295 : Nat) < Word.halfCount := by decide
  obtain ⟨hindices, hplaces⟩ :=
    (ofUnit_eq_ofUnit_iff (by omega) (by omega) hbound).mp hsame.symm
  obtain rfl := eq_of_index ht hr hindices
  exact none target htarget hplaces

/-- An id of no unit is unresolved. -/
theorem entry_of_noUnit (few : units.length < Scope.noUnit) (offset : Nat) :
    image.toSource.entry (.ofUnit Scope.noUnit offset) =
      .error (.unresolved (.ofUnit Scope.noUnit offset)) :=
  entry_of_no_record records fun _ ht _ _ =>
    idOf_ne_of_noUnit (Nat.lt_trans (index_lt_of_mem_scopes ht) few) offset

end Records

end Lookups

/-! ## References of types -/

namespace Scope

/-- The entries that give the references of what an entry describes. -/
def referrers (d : Die) (children : List Die) : List Die :=
  match d.tag with
  | .structureType | .classType | .unionType => children.filter Die.isField
  | .arrayType | .pointerType | .referenceType | .rvalueReferenceType | .typedef | .constType |
    .volatileType | .restrictType | .atomicType => if d.carries .type then [d] else []
  | _ => []

/-- The type refers to what those entries refer to, in order. An array without a type refers to an
id of no unit. -/
def Refers (s : Scope) (sections : Sections) (d : Die) (e : Entry) : Prop :=
  List.Forall₂ (fun referrer id => (s.type? referrer).result sections = .ok (some id))
      (referrers d ((s.unit.children d).run sections).items) e.references ∨
    d.tag = .arrayType ∧ d.carries .type = false ∧ e.references = [.ofUnit noUnit d.place]

variable {log left : Array Log.Event} {e : Entry}

theorem type_of_result {m : Member} (h : (s.member? d).result sections = .ok (some m)) :
    (s.type? d).result sections = .ok (some m.type) := by
  obtain ⟨type, _, _, htype, hmember⟩ := exists_of_result_member? h
  rw [(exists_of_gives_member hmember).1, htype]

theorem forall₂_of_gives_type? {target : Option EntryId}
    (h : Gives sections log (s.type? d) target left) :
    List.Forall₂ (fun referrer id => (s.type? referrer).result sections = .ok (some id))
      (if d.carries .type then [d] else []) target.toList := by
  have hresult := ignoresLog_type?.result_of_gives h
  rw [← gives_type? h]
  cases target with
  | none => exact .nil
  | some id => exact .cons hresult .nil

/-- What an entry describes refers to what the entry or its fields refer to. -/
theorem Records.refers (h : s.Records sections d e) (outline : s.outline = s.unit.outline) :
    s.Refers sections d e := by
  have compound (htag : d.tag ∈ [.structureType, .classType, .unionType])
      (parted : d.tag ∈ partTags) : List.Forall₂
        (fun referrer id => (s.type? referrer).result sections = .ok (some id))
        (((s.unit.children d).run sections).items.filter Die.isField) e.references := by
    obtain ⟨children, hchildren, -, hdescribes⟩ := h.describes outline parted
    obtain ⟨kind, members, declaration, hkind, hparts⟩ := hdescribes.of_compound htag
    unfold Entry.references
    rw [hkind, hchildren]
    exact List.forall₂_map_right_iff.mpr (hparts.imp fun _ _ hm => type_of_result hm)
  obtain ⟨-, log, left, hkind⟩ := h
  unfold Refers referrers
  unfold kind? at hkind
  unfold Entry.references at compound ⊢
  generalize e.kind = kind at *
  cases htag : d.tag <;> rw [htag] at hkind compound
  case structureType | classType | unionType => exact .inl (compound (by decide) (by decide))
  case enumerationType =>
    obtain ⟨_, -, hsame⟩ := gives_map_iff.mp hkind
    cases hsame
    exact .inl .nil
  case arrayType =>
    obtain ⟨element, _, helement, hrest⟩ := gives_bind_iff.mp hkind
    obtain ⟨_, -, hsame⟩ := gives_map_iff.mp hrest
    cases hsame
    have htype := forall₂_of_gives_type? helement
    have hcarries := gives_type? helement
    cases element with
    | none => exact .inr ⟨rfl, hcarries.symm, rfl⟩
    | some element => exact .inl htype
  case pointerType | referenceType | rvalueReferenceType | typedef | constType | volatileType |
      restrictType | atomicType =>
    obtain ⟨_, htarget, hsame⟩ := gives_map_iff.mp hkind
    cases hsame
    exact .inl (forall₂_of_gives_type? htarget)
  case baseType | unspecifiedType | subroutineType =>
    cases (gives_pure_iff.mp hkind).1
    exact .inl .nil
  case member | subrangeType | enumerator | other => cases (gives_pure_iff.mp hkind).1

end Scope
end LayoutGraph.Dwarf

namespace LayoutGraph

/-! ## The law -/

open Dwarf

/-- In any sections that can be decoded, of fewer units than there are numbers for and each shorter
than the numbers of 32 bits, every entry of a unit that describes a type has its type in the image,
and the type refers to what the entry or its fields refer to. Any reference of any entry becomes an
id, and it is the id that is looked up. If it leads to the place of an entry that
describes a type, it resolves to the type, or to the definition that answers for it. If it leads
nowhere, or to a place with no such entry at its low 32 bits, it is an unresolved reference. A place
that takes more than 32 bits is that of no entry, but resolves to the type at its low 32 bits, if
there is one. -/
theorem a_reference_resolves_to_the_type_at_the_low_half_of_its_place
    (origin : String) (littleEndian : Bool) {sections : Sections} {image : Image}
    {log : List Log.Event}
    (decoded : Image.ofSections origin littleEndian sections = (.ok image, log))
    {units : List CompiledUnit} (held : allUnits.result sections = .ok units)
    (few : units.length < Scope.noUnit) (short : ∀ u ∈ units, u.length < Word.halfCount) :
    (∀ s ∈ scopes units, ∀ d ∈ s.typeDies sections,
      ∃ e ∈ image.entries, e.id = s.idOf d ∧ s.Refers sections d e) ∧
    ∀ s ∈ scopes units, ∀ d v, s.unit.Has sections d → d.value? .type = some v →
      v.IsReference → ∃ id, (s.type? d).result sections = .ok (some id) ∧
        (∀ t ∈ scopes units, ∀ target ∈ t.typeDies sections, s.LeadsTo v t target.place →
          ∃ e ∈ image.entries, e.id = t.idOf target ∧
            image.toSource.entry id = .ok (image.answer e)) ∧
        ((∀ t place, s.LeadsTo v t place →
            ∀ target ∈ t.typeDies sections, target.place ≠ place % Word.halfCount) →
          image.toSource.entry id = .error (.unresolved id)) ∧
        (∀ t place, s.LeadsTo v t place → ∀ target ∈ t.typeDies sections,
          target.place = place % Word.halfCount → ∃ e ∈ image.entries, e.id = t.idOf target ∧
            image.toSource.entry id = .ok (image.answer e)) := by
  have records := records_of_decoded decoded held
  refine ⟨fun s hs d hd => ?_, fun s hs d v _ hv reference => ?_⟩
  · obtain ⟨e, he, hrecords⟩ := exists_records decoded held hs hd
    exact ⟨e, he, hrecords.1, hrecords.refers (outline_of_mem_scopesFrom hs)⟩
  · refine ⟨s.idOfReference d v, Scope.result_type? hv reference, ?resolves, ?dangles, ?beyond⟩
    case resolves =>
      intro t ht target htarget hleads
      rw [Scope.idOfReference_of_leadsTo held hs hleads]
      exact entry_of_place records few short ht htarget
        (Nat.mod_eq_of_lt (place_lt_of_mem_typeDies short ht htarget).2.2).symm
    case dangles =>
      intro dangling
      -- The id is that of a place without a type, or of no unit. Neither is the id of a type.
      by_cases hleads : ∃ t place, s.LeadsTo v t place
      · obtain ⟨t, place, hleads⟩ := hleads
        rw [Scope.idOfReference_of_leadsTo held hs hleads]
        exact entry_of_no_place records few short (hleads.mem_scopes hs) (dangling t place hleads)
      · have hnowhere (t : Scope) (place : Nat) : ¬ s.LeadsTo v t place :=
          fun h => hleads ⟨t, place, h⟩
        obtain ⟨offset, hoffset⟩ := Scope.idOfReference_of_not_leadsTo reference hnowhere
        rw [hoffset]
        exact entry_of_noUnit records few offset
    case beyond =>
      intro t place hleads target htarget hplace
      rw [Scope.idOfReference_of_leadsTo held hs hleads]
      exact entry_of_place records few short (hleads.mem_scopes hs) htarget hplace

namespace Dwarf

/-- Two units of `.debug_info` and one of `.debug_types`. The first has six pointers: to a type of
its own, to the middle of it, to the type of the second unit, to a type by its signature, by a
signature of no type, and to a place of its own whose low 32 bits are those of its type. -/
def sixPointers : Sections where
  info := { bytes := #[
    47, 0, 0, 0, 4, 0, 0, 0, 0, 0, 8,
    1,
      2, 4,
      3, 12,
      3, 13,
      4, 63, 0, 0, 0,
      5, 7, 0, 0, 0, 0, 0, 0, 0,
      5, 9, 0, 0, 0, 0, 0, 0, 0,
      6, 12, 0, 0, 0, 1, 0, 0, 0,
    0,
    11, 0, 0, 0, 4, 0, 0, 0, 0, 0, 8,
    1,
      2, 8,
    0] }
  types := { bytes := #[
    23, 0, 0, 0, 4, 0, 0, 0, 0, 0, 8, 7, 0, 0, 0, 0, 0, 0, 0, 24, 0, 0, 0,
    7,
      2, 2,
    0] }
  abbreviations := { bytes := #[
    1, 0x11, 1, 0, 0,
    2, 0x24, 0, 0x0b, 0x0b, 0, 0,
    3, 0x0f, 0, 0x49, 0x11, 0, 0,
    4, 0x0f, 0, 0x49, 0x10, 0, 0,
    5, 0x0f, 0, 0x49, 0x20, 0, 0,
    6, 0x0f, 0, 0x49, 0x14, 0, 0,
    7, 0x41, 1, 0, 0,
    0] }

def pointerIn (code form : Nat) : Abbreviation :=
  ⟨code, .pointerType, false, [⟨.type, form, none⟩]⟩

def sixPointersAbbreviations : List Abbreviation :=
  [⟨1, .other, true, []⟩, ⟨2, .baseType, false, [⟨.byteSize, 0x0b, none⟩]⟩, pointerIn 3 0x11,
    pointerIn 4 0x10, pointerIn 5 0x20, pointerIn 6 0x14, ⟨7, .other, true, []⟩]

def pointingUnit : CompiledUnit :=
  ⟨false, 0, 11, 51, ⟨4, 4, 8⟩, .other, sixPointersAbbreviations, 0⟩

def pointedUnit : CompiledUnit :=
  ⟨false, 51, 11, 66, ⟨4, 4, 8⟩, .other, sixPointersAbbreviations, 0⟩

def signedUnit : CompiledUnit :=
  ⟨true, 0, 23, 27, ⟨4, 4, 8⟩, .type 7 24, sixPointersAbbreviations, 0⟩

/-- The units that the sections hold. -/
def sixPointersUnits : List CompiledUnit := [pointingUnit, pointedUnit, signedUnit]

def sixPointersScope (index : Nat) (u : CompiledUnit) : Scope :=
  ⟨sixPointersUnits, index, u, u.outline⟩

def pointingScope : Scope := sixPointersScope 0 pointingUnit

def pointedScope : Scope := sixPointersScope 1 pointedUnit

def signedScope : Scope := sixPointersScope 2 signedUnit

def pointerAt (place next : Nat) (target : AttributeValue) : Die :=
  whole place next .pointerType false [⟨.type, target⟩]

/-- The pointer to a place of more than 32 bits. -/
def farPointer : Die := pointerAt 41 50 (.unitReference 0x10000000c)

def pointerDies : List Die :=
  [pointerAt 14 16 (.unitReference 12), pointerAt 16 18 (.unitReference 13),
    pointerAt 18 23 (.infoReference 63), pointerAt 23 32 (.signatureReference 7),
    pointerAt 32 41 (.signatureReference 9), farPointer]

theorem mem_scopes_sixPointers {r : Scope} (h : r ∈ scopes sixPointersUnits) :
    r = pointingScope ∨ r = pointedScope ∨ r = signedScope := by
  rcases List.mem_cons.mp h with rfl | h
  · exact .inl rfl
  · rcases List.mem_cons.mp h with rfl | h
    · exact .inr (.inl rfl)
    · exact .inr (.inr (List.mem_singleton.mp h))

theorem sixPointers_lead :
    pointingScope.LeadsTo (.unitReference 12) pointingScope 12 ∧
      pointingScope.LeadsTo (.infoReference 63) pointedScope 12 ∧
      pointingScope.LeadsTo (.signatureReference 7) signedScope 24 := by
  have hinfo : pointingScope.LeadsTo (.infoReference (pointedScope.unit.start + 12)) pointedScope
      12 := .info (.tail _ (.head _)) rfl rfl
  have hmem : signedScope ∈ scopes pointingScope.units := .tail _ (.tail _ (.head _))
  refine ⟨.own, hinfo, .signature hmem rfl fun r hr hlt other hother => ?_⟩
  rcases mem_scopes_sixPointers hr with rfl | rfl | rfl
  · cases hother
  · cases hother
  · exact absurd hlt (by decide)

/-- The type of the first unit, to which the last pointer resolves. -/
def fourBytes : Entry := ⟨.ofUnit 0 12, some "void", some 4, .base⟩

theorem sixPointers_units : allUnits.result sixPointers = .ok sixPointersUnits := by
  decide +kernel

theorem sixPointers_decoded : ∃ image log,
    Image.ofSections "a.o" true sixPointers = (.ok image, log) ∧
      image.toSource.find? (.ofUnit 0 12) = some fourBytes :=
  exists_decoded _ _ (fun image => image.toSource.find? (.ofUnit 0 12)) (by decide +kernel)

theorem references_to_three_units_resolve :
    allUnits.result sixPointers = .ok sixPointersUnits ∧
      sixPointersUnits.length < Scope.noUnit ∧
      (∀ u ∈ sixPointersUnits, u.length < Word.halfCount) ∧
      (∀ d ∈ pointerDies, pointingUnit.Has sixPointers d) ∧
      (pointingScope.LeadsTo (.unitReference 12) pointingScope 12 ∧
        pointingScope.LeadsTo (.infoReference 63) pointedScope 12 ∧
        pointingScope.LeadsTo (.signatureReference 7) signedScope 24) ∧
      ∃ image log, Image.ofSections "a.o" true sixPointers = (.ok image, log) ∧
        (∀ s ∈ scopes sixPointersUnits, ∀ d ∈ s.typeDies sixPointers,
          ∃ e ∈ image.entries, e.id = s.idOf d ∧ s.Refers sixPointers d e) ∧
        ∀ s ∈ scopes sixPointersUnits, ∀ d v, s.unit.Has sixPointers d →
          d.value? .type = some v → v.IsReference →
          ∃ id, (s.type? d).result sixPointers = .ok (some id) ∧
            (∀ t ∈ scopes sixPointersUnits, ∀ target ∈ t.typeDies sixPointers,
              s.LeadsTo v t target.place → ∃ e ∈ image.entries, e.id = t.idOf target ∧
                image.toSource.entry id = .ok (image.answer e)) ∧
            ((∀ t place, s.LeadsTo v t place →
                ∀ target ∈ t.typeDies sixPointers, target.place ≠ place % Word.halfCount) →
              image.toSource.entry id = .error (.unresolved id)) ∧
            (∀ t place, s.LeadsTo v t place → ∀ target ∈ t.typeDies sixPointers,
              target.place = place % Word.halfCount → ∃ e ∈ image.entries,
                e.id = t.idOf target ∧ image.toSource.entry id = .ok (image.answer e)) := by
  have few : sixPointersUnits.length < Scope.noUnit := by decide
  have short : ∀ u ∈ sixPointersUnits, u.length < Word.halfCount := by decide
  have has : ∀ d ∈ pointerDies,
      (pointingUnit.itemAt d.place).run.run sixPointers = .ok (.die d) := by decide +kernel
  obtain ⟨image, log, decoded, -⟩ := sixPointers_decoded
  exact ⟨sixPointers_units, few, short, has, sixPointers_lead, image, log, decoded,
    a_reference_resolves_to_the_type_at_the_low_half_of_its_place "a.o" true decoded
      sixPointers_units few short⟩

/-- No entry stands at the place of the last pointer, which resolves to a type all the same. -/
theorem a_reference_beyond_32_bits_resolves :
    allUnits.result sixPointers = .ok sixPointersUnits ∧
      ∃ image log, Image.ofSections "a.o" true sixPointers = (.ok image, log) ∧
        (pointingScope.type? farPointer).result sixPointers =
          .ok (some (.ofUnit 0 12)) ∧
        image.toSource.entry (.ofUnit 0 12) = .ok fourBytes ∧
        ¬ ∀ s ∈ scopes sixPointersUnits, ∀ d v, s.unit.Has sixPointers d →
            d.value? .type = some v → v.IsReference →
            ∀ id, (s.type? d).result sixPointers = .ok (some id) →
              (∀ t place, s.LeadsTo v t place →
                ∀ target ∈ t.typeDies sixPointers, target.place ≠ place) →
              image.toSource.entry id = .error (.unresolved id) := by
  have short : ∀ u ∈ sixPointersUnits, u.length < Word.halfCount := by decide
  have hs : pointingScope ∈ scopes sixPointersUnits := .head _
  have has : (pointingUnit.itemAt farPointer.place).run.run sixPointers =
      .ok (.die farPointer) := by decide +kernel
  have hid : EntryId.ofUnit 0 0x10000000c = .ofUnit 0 12 := by decide
  have reference : AttributeValue.IsReference (.unitReference 0x10000000c) := trivial
  have htype : (pointingScope.type? farPointer).result sixPointers =
      .ok (some (.ofUnit 0 0x10000000c)) := Scope.result_type? rfl reference
  rw [hid] at htype
  obtain ⟨image, log, decoded, hfind⟩ := sixPointers_decoded
  have hentry : image.toSource.entry (.ofUnit 0 12) = .ok fourBytes := by
    unfold Source.entry
    rw [hfind]
  refine ⟨sixPointers_units, image, log, decoded, htype, hentry, fun dangles => ?_⟩
  have herror := dangles pointingScope hs farPointer _ has rfl reference _ htype ?_
  · cases hentry.symm.trans herror
  · rintro t place ⟨⟩ target htarget
    have hplace := (place_lt_of_mem_typeDies short hs htarget).2.2
    unfold Word.halfCount at hplace
    omega

end Dwarf

end LayoutGraph
