-- Where decoded types come from: each is that of an entry that the walk over its
-- unit meets and that has the tag of a type, and no such entry is left out. An
-- entry with parts has children that can all be read.
import LayoutGraph.Proofs.Dwarf.Standing
import LayoutGraph.Proofs.Extraction

namespace LayoutGraph.Dwarf

open Work Decoding

variable {sections : Sections} {log left : Array Log.Event} {s : Scope} {d : Die}

/-! ## What is gathered -/

theorem whole_of_gather {α β : Type} {task : Task} {work : α → Decoding (Option β)}
    {r : Readable α} {kept : List β} (h : Gives sections log (gather task work r) kept left) :
    r = ⟨r.items, none⟩ := by
  obtain ⟨all, middle, -, hend⟩ := gives_bind_iff.mp h
  obtain ⟨items, defect⟩ := r
  cases defect with
  | some defect => exact (not_gives_throw hend).elim
  | none => rfl

theorem exists_of_mem_right {α β : Type} {R : α → β → Prop} {as : List α} {bs : List β}
    (h : List.Forall₂ R as bs) {b : β} (hb : b ∈ bs) : ∃ a ∈ as, R a b := by
  induction h with
  | nil => cases hb
  | @cons a _ as bs hhere _ ih =>
    rcases List.mem_cons.mp hb with rfl | hb
    · exact ⟨a, .head as, hhere⟩
    · obtain ⟨c, hc, hR⟩ := ih hb
      exact ⟨c, .tail a hc, hR⟩

theorem exists_of_mem_left {α β : Type} {R : α → β → Prop} {as : List α} {bs : List β}
    (h : List.Forall₂ R as bs) {a : α} (ha : a ∈ as) : ∃ b ∈ bs, R a b :=
  exists_of_mem_right h.flip ha

namespace Scope

/-! ## Kinds -/

/-- The tags of entries whose types have parts. -/
def partTags : List Tag := [.structureType, .classType, .unionType, .enumerationType, .arrayType]

/-- The kind of an entry is found where its tag is that of a type. -/
theorem isSome_of_gives_kind? {o : Option EntryKind}
    (h : Gives sections log (s.kind? d) o left) : o.isSome = d.describesType := by
  unfold kind? at h
  unfold Die.describesType
  cases htag : d.tag <;> rw [htag] at h
  case structureType | classType | unionType | enumerationType | pointerType | referenceType |
      rvalueReferenceType | typedef | constType | volatileType | restrictType | atomicType =>
    obtain ⟨_, -, rfl⟩ := gives_map_iff.mp h
    rfl
  case arrayType =>
    obtain ⟨_, _, -, hrest⟩ := gives_bind_iff.mp h
    obtain ⟨_, -, rfl⟩ := gives_map_iff.mp hrest
    rfl
  all_goals
    obtain ⟨rfl, -⟩ := gives_pure_iff.mp h
    rfl

theorem whole_of_gives_gather {α : Type} {task : Task} {work : Die → Decoding (Option α)}
    {script : Script (Readable Die)} {parts : List α}
    (h : Gives sections log (do .gather task work (← script) : Decoding (List α)) parts left) :
    ∃ children, script.run sections = ⟨children, none⟩ := by
  obtain ⟨r, _, hr, hgather⟩ := gives_bind_iff.mp h
  obtain ⟨rfl, -⟩ := gives_lift_iff.mp hr
  exact ⟨_, whole_of_gather hgather⟩

/-- The children of a type with parts can all be read. -/
theorem whole_of_gives_kind? {o : Option EntryKind} (parted : d.tag ∈ partTags)
    (h : Gives sections log (s.kind? d) o left) :
    ∃ children, (s.outline.children d).run sections = ⟨children, none⟩ := by
  have compound {kind : CompoundKind} {k : EntryKind} {left : Array Log.Event}
      (hk : Gives sections log (s.compound kind d) k left) :
      ∃ children, (s.outline.children d).run sections = ⟨children, none⟩ := by
    obtain ⟨_, _, hmembers, -⟩ := gives_bind_iff.mp hk
    exact whole_of_gives_gather hmembers
  unfold kind? at h
  cases htag : d.tag <;> rw [htag] at h parted
  case structureType | classType | unionType =>
    obtain ⟨_, hk, -⟩ := gives_map_iff.mp h
    exact compound hk
  case enumerationType =>
    obtain ⟨_, hconstants, -⟩ := gives_map_iff.mp h
    exact whole_of_gives_gather hconstants
  case arrayType =>
    obtain ⟨_, _, -, hrest⟩ := gives_bind_iff.mp h
    obtain ⟨_, hextents, -⟩ := gives_map_iff.mp hrest
    exact whole_of_gives_gather hextents
  all_goals exact absurd parted (by decide)

theorem Describes.of_compound {children : List Die} {k : EntryKind}
    (h : s.Describes sections d children k)
    (htag : d.tag ∈ [.structureType, .classType, .unionType]) :
    ∃ kind members declaration, k = .compound kind members declaration ∧
      Parts sections s.member? (children.filter Die.isField) members := by
  simp only [List.mem_cons, List.not_mem_nil, or_false] at htag
  cases h with
  | struct _ parts | union _ parts => exact ⟨_, _, _, rfl, parts⟩
  | _ tag => rcases htag with htag | htag | htag <;> exact absurd tag (by rw [htag]; decide)

theorem Describes.of_arrayType {children : List Die} {k : EntryKind}
    (h : s.Describes sections d children k) (htag : d.tag = .arrayType) :
    ∃ element extents, k = .array element extents ∧
      Parts sections extent? (children.filter Die.isAxis) extents := by
  cases h with
  | array _ parts => exact ⟨_, _, rfl, parts⟩
  | _ tag => exact absurd tag (by rw [htag]; decide)

/-- Parts of children of the unit are those of entries of the unit. -/
theorem Parts.with_has {α : Type} {work : Die → Decoding (Option α)} {pick : Die → Bool}
    {children : List Die} {parts : List α} (h : Parts sections work (children.filter pick) parts)
    (hhas : ∀ child ∈ children, s.unit.Has sections child) :
    List.Forall₂ (fun child a => s.unit.Has sections child ∧
        (work child).result sections = .ok (some a)) (children.filter pick) parts :=
  (List.forall₂_and_left _ _).mpr ⟨fun child hchild => hhas child (List.mem_filter.mp hchild).1, h⟩

/-! ## Members -/

/-- A member is that of a type to which its entry refers. -/
theorem exists_of_result_member? {m : Member} (h : (s.member? d).result sections = .ok (some m)) :
    ∃ type log left, (s.type? d).result sections = .ok (some type) ∧
      Gives sections log (s.member d type) m left := by
  have hgives : Gives sections #[] (s.member? d) (some m) _ := Prod.ext h rfl
  unfold member? at hgives
  split at hgives
  · cases (gives_pure_iff.mp hgives).1
  obtain ⟨static, _, -, hrest⟩ := gives_bind_iff.mp hgives
  cases static with
  | true => cases (gives_pure_iff.mp hrest).1
  | false =>
    obtain ⟨type, _, htype, hmember⟩ := gives_bind_iff.mp hrest
    cases type with
    | none => cases (gives_map_iff.mp hmember).choose_spec.2
    | some type =>
      obtain ⟨_, hmember, hm⟩ := gives_map_iff.mp hmember
      cases hm
      exact ⟨type, _, _, ignoresLog_type?.result_of_gives htype, hmember⟩

/-- A member is put together from what its entry says of place and bits. -/
theorem exists_of_gives_member {type : EntryId} {m : Member}
    (h : Gives sections log (s.member d type) m left) :
    m.type = type ∧ ∃ location dataBits ownBits log left,
      Gives sections log (s.location? d) location left ∧
        m.byteOffset = (bytesAndBits location dataBits ownBits).1 := by
  obtain ⟨name, _, -, hrest⟩ := gives_bind_iff.mp h
  obtain ⟨location, _, hlocation, hrest⟩ := gives_bind_iff.mp hrest
  obtain ⟨bitSize, _, -, hrest⟩ := gives_bind_iff.mp hrest
  obtain ⟨dataBits, _, -, hrest⟩ := gives_bind_iff.mp hrest
  dsimp only at hrest
  split at hrest
  all_goals
    obtain ⟨ownBits, _, -, hm⟩ := gives_bind_iff.mp hrest
    obtain ⟨rfl, -⟩ := gives_pure_iff.mp hm
    exact ⟨rfl, location, dataBits, ownBits, _, _, hlocation, rfl⟩

/-! ## Entries -/

/-- The type is what an entry of the unit describes. -/
def Records (s : Scope) (sections : Sections) (d : Die) (e : Entry) : Prop :=
  e.id = s.idOf d ∧ ∃ log left, Gives sections log (s.kind? d) (some e.kind) left

/-- The children of an entry whose type has parts, and what it describes with them. -/
theorem Records.describes {e : Entry} (h : s.Records sections d e)
    (outline : s.outline = s.unit.outline) (parted : d.tag ∈ partTags) :
    ∃ children, (s.unit.children d).run sections = ⟨children, none⟩ ∧
      (∀ child ∈ children, s.unit.Has sections child) ∧
      s.Describes sections d children e.kind := by
  obtain ⟨-, log, left, hkind⟩ := h
  obtain ⟨children, hchildren⟩ := whole_of_gives_kind? parted hkind
  have hdescribes := (gives_kind? hchildren hkind).2 _ rfl
  rw [outline] at hchildren
  have hchildren : (s.unit.children d).run sections = ⟨children, none⟩ := hchildren
  refine ⟨children, hchildren, fun child hchild => ?_, hdescribes⟩
  refine CompiledUnit.has_of_mem_children (d := d) ?_
  rwa [hchildren]

theorem records_of_gives_own {depth : Int} {o : Option (Entry × Bool)}
    (h : Gives sections log (s.entry? depth d) o left) :
    o.isSome = d.describesType ∧ ∀ t, o = some t → s.Records sections d t.1 := by
  obtain ⟨kind, _, hkind, hrest⟩ := gives_bind_iff.mp h
  rw [← isSome_of_gives_kind? hkind]
  cases kind with
  | none =>
    obtain ⟨rfl, -⟩ := gives_pure_iff.mp hrest
    exact ⟨rfl, nofun⟩
  | some kind =>
    obtain ⟨size, _, -, hname⟩ := gives_bind_iff.mp hrest
    obtain ⟨name, -, rfl⟩ := gives_map_iff.mp hname
    refine ⟨rfl, ?_⟩
    rintro t ⟨⟩
    exact ⟨rfl, _, _, hkind⟩

theorem map_snd_depthsFrom (depth : Int) (walk : List (Int × Die)) :
    (depthsFrom depth walk).map Prod.snd = walk.map Prod.snd := by
  induction walk generalizing depth with
  | nil => rfl
  | cons p rest ih => exact congrArg (p.2 :: ·) (ih _)

/-- The entries of the unit that describe types, as the walk meets them. -/
def typeDies (sections : Sections) (s : Scope) : List Die :=
  ((s.unit.walk.run sections).items.map Prod.snd).filter Die.describesType

theorem mem_typeDies : d ∈ s.typeDies sections ↔
    (∃ step, (step, d) ∈ (s.unit.walk.run sections).items) ∧ d.describesType = true := by
  simp [typeDies]

theorem has_of_mem_typeDies (h : d ∈ s.typeDies sections) : s.unit.Has sections d := by
  obtain ⟨⟨step, hwalk⟩, -⟩ := mem_typeDies.mp h
  exact CompiledUnit.has_of_mem_walk (p := (step, d)) hwalk

/-- The types of a unit are those of its entries that describe types, in order. -/
theorem records_of_gives_entries {types : List (Entry × Bool)}
    (outline : s.outline = s.unit.outline) (h : Gives sections log s.entries types left) :
    List.Forall₂ (fun d t => s.Records sections d t.1) (s.typeDies sections) types := by
  obtain ⟨walk, _, hwalk, hgather⟩ := gives_bind_iff.mp h
  obtain ⟨rfl, -⟩ := gives_lift_iff.mp hwalk
  rw [outline] at hgather
  unfold typeDies
  rw [← map_snd_depthsFrom 0, List.filter_map]
  exact List.forall₂_map_left_iff.mpr (forall₂_of_gather
    (fun _ _ _ _ _ hentry => (records_of_gives_own hentry).1)
    (fun _ _ _ _ _ hentry => (records_of_gives_own hentry).2 _ rfl) hgather)

end Scope

/-! ## Units -/

theorem outline_of_mem_scopesFrom {units rest : List CompiledUnit} {index : Nat}
    (h : s ∈ scopesFrom units index rest) : s.outline = s.unit.outline := by
  obtain ⟨_, -, rfl⟩ := List.mem_map.mp h
  rfl

/-- The entries of all units that describe types, each with the scope of its unit. -/
def typeDies (sections : Sections) (scopes : List Scope) : List (Scope × Die) :=
  scopes.flatMap fun s => (s.typeDies sections).map (s, ·)

theorem records_of_gives_decodeFrom {units rest : List CompiledUnit} {index : Nat}
    {types : List (Entry × Bool)} (h : Gives sections log (decodeFrom units index rest) types left) :
    List.Forall₂ (fun p t => p.1.Records sections p.2 t.1)
      (typeDies sections (scopesFrom units index rest)) types := by
  induction rest generalizing index log types with
  | nil =>
    obtain ⟨rfl, -⟩ := gives_pure_iff.mp h
    exact .nil
  | cons u rest ih =>
    obtain ⟨here, middle, hhere, hrest⟩ := gives_bind_iff.mp h
    obtain ⟨later, hlater, rfl⟩ := gives_map_iff.mp hrest
    unfold typeDies scopesFrom
    rw [List.zipIdx_cons, List.map_cons, List.flatMap_cons]
    exact List.rel_append
      (List.forall₂_map_left_iff.mpr (Scope.records_of_gives_entries rfl hhere)) (ih hlater)

theorem mem_typeDies_scopes {scopes : List Scope} {p : Scope × Die} :
    p ∈ typeDies sections scopes ↔ p.1 ∈ scopes ∧ p.2 ∈ p.1.typeDies sections := by
  constructor
  · intro h
    obtain ⟨s, hs, hp⟩ := List.mem_flatMap.mp h
    obtain ⟨d, hd, rfl⟩ := List.mem_map.mp hp
    exact ⟨hs, hd⟩
  · rintro ⟨hs, hd⟩
    exact List.mem_flatMap.mpr ⟨p.1, hs, List.mem_map.mpr ⟨p.2, hd, rfl⟩⟩

theorem exists_of_gives_decodeFrom {units rest : List CompiledUnit} {index : Nat}
    {types : List (Entry × Bool)} (h : Gives sections log (decodeFrom units index rest) types left) :
    ∀ t ∈ types, ∃ s ∈ scopesFrom units index rest, ∃ d, s.unit.Has sections d ∧
      t.1.id = s.idOf d ∧ ∃ log left, Gives sections log (s.kind? d) (some t.1.kind) left := by
  intro t ht
  obtain ⟨p, hp, hid, hkind⟩ := exists_of_mem_right (records_of_gives_decodeFrom h) ht
  obtain ⟨hs, hd⟩ := mem_typeDies_scopes.mp hp
  exact ⟨p.1, hs, p.2, Scope.has_of_mem_typeDies hd, hid, hkind⟩

theorem units_of_decode {contents : Contents} (h : sections.decode.1 = .ok contents) :
    ∃ units, allUnits.result sections = .ok units := by
  unfold Sections.decode at h
  rcases hrun : Script.run sections (decode.run.run #[]) with ⟨r, log⟩
  rw [hrun] at h
  have hdecode : Gives sections #[] decode contents log := hrun.trans (Prod.ext h rfl)
  obtain ⟨units, _, hunits, -⟩ := gives_bind_iff.mp hdecode
  exact ⟨units, congrArg Prod.fst hunits⟩

/-! ## Images -/

section Image

variable {origin : String} {littleEndian : Bool} {image : Image} {events : List Log.Event}
  {units : List CompiledUnit}

/-- Sections are decoded if something of their image can be shown. -/
theorem exists_decoded {α : Type} (sections : Sections) (a : α) (of : Image → α)
    (found : (Image.ofSections "a.o" true sections).1.toOption.map of = some a) :
    ∃ image log, Image.ofSections "a.o" true sections = (.ok image, log) ∧ of image = a := by
  rcases decoded : Image.ofSections "a.o" true sections with ⟨r, log⟩
  rw [decoded] at found
  cases r with
  | error failure => cases found
  | ok image => exact ⟨image, log, rfl, Option.some.inj found⟩

/-- The types of an image are those of the entries of the units that describe types, in order. -/
theorem records_of_decoded
    (decoded : Image.ofSections origin littleEndian sections = (.ok image, events))
    (held : allUnits.result sections = .ok units) :
    List.Forall₂ (fun p e => p.1.Records sections p.2 e) (typeDies sections (scopes units))
      image.entries := by
  obtain ⟨contents, hcontents, rfl⟩ := Image.ofSections_ok decoded
  obtain ⟨_, _, hgives⟩ := gives_of_decode held hcontents
  exact List.forall₂_map_right_iff.mpr (records_of_gives_decodeFrom hgives)

/-- An entry of a unit that describes a type has its type in the image. -/
theorem exists_records
    (decoded : Image.ofSections origin littleEndian sections = (.ok image, events))
    (held : allUnits.result sections = .ok units) (hs : s ∈ scopes units)
    (hd : d ∈ s.typeDies sections) : ∃ e ∈ image.entries, s.Records sections d e :=
  exists_of_mem_left (a := (s, d)) (records_of_decoded decoded held)
    (mem_typeDies_scopes.mpr ⟨hs, hd⟩)

end Image

end LayoutGraph.Dwarf
