-- The law of decoding: the types of an input are those of its entries that have
-- the tag of a type, each with the parts that its own children give, and at
-- the top stand those that hang directly below the root of a unit.
import LayoutGraph.Image
import LayoutGraph.Proofs.Dwarf.Ascent
import LayoutGraph.Proofs.Dwarf.Forest
import LayoutGraph.Proofs.Dwarf.Parts
import Mathlib.Data.List.Nodup

namespace LayoutGraph.Dwarf

namespace Scope

open Work Decoding

variable {s : Scope} {sections : Sections} {log left : Array Log.Event}

/-! ## The entries of one unit -/

/-- The entry has the id of a node and describes it. -/
def Renders (s : Scope) (sections : Sections) (n : Node) (e : Entry) : Prop :=
  e.id = s.idOf n.die ∧ s.Describes sections n.die n.children e.kind

theorem renders_of_gives {n : Node} {o : Option (Entry × Bool)}
    (hchildren : (s.outline.children n.die).run sections = ⟨n.children, none⟩)
    (h : Gives sections log (s.entry? n.depth n.die) o left) :
    o.isSome = n.die.describesType ∧
      ∀ t, o = some t → s.Renders sections n t.1 ∧ t.2 = decide (n.depth = 1) := by
  obtain ⟨kind, _, hkind, hrest⟩ := gives_bind_iff.mp h
  obtain ⟨hsome, hdescribes⟩ := gives_kind? hchildren hkind
  rw [← hsome]
  cases kind with
  | none =>
    obtain ⟨rfl, -⟩ := gives_pure_iff.mp hrest
    exact ⟨rfl, fun _ h => by cases h⟩
  | some kind =>
    obtain ⟨size, _, -, hname⟩ := gives_bind_iff.mp hrest
    obtain ⟨name, -, rfl⟩ := gives_map_iff.mp hname
    refine ⟨rfl, ?_⟩
    rintro t ⟨⟩
    exact ⟨⟨rfl, hdescribes kind rfl⟩, decide_eq_decide.mpr (by omega)⟩

theorem forall₂_of_gives_entries {f : Forest} {found : List (Entry × Bool)}
    (follows : s.outline.Follows sections f) (h : Gives sections log s.entries found left) :
    List.Forall₂ (fun n t => s.Renders sections n t.1 ∧ t.2 = decide (n.depth = 1))
      (f.nodes.filter fun n => n.die.describesType) found := by
  obtain ⟨walk, _, hwalk, hgather⟩ := gives_bind_iff.mp h
  obtain ⟨rfl, -⟩ := gives_lift_iff.mp hwalk
  rw [follows.walk] at hgather
  dsimp only at hgather
  rw [depthsFrom_stepsFrom, gather_map] at hgather
  exact forall₂_of_gather
    (fun n hn _ _ _ hentry => (renders_of_gives (follows.children n hn) hentry).1)
    (fun n hn _ _ _ hentry => (renders_of_gives (follows.children n hn) hentry).2 _ rfl) hgather

end Scope

/-! ## All units -/

/-- Units as they are decoded, the first of `rest` with the number `index`. -/
def scopesFrom (units : List CompiledUnit) (index : Nat) (rest : List CompiledUnit) : List Scope :=
  (rest.zipIdx index).map fun (u, index) => ⟨units, index, u, u.outline⟩

def scopes (units : List CompiledUnit) : List Scope := scopesFrom units 0 units

/-- The entries that describe types, each with the scope of its unit. -/
def typeNodes (tree : CompiledUnit → Forest) (scopes : List Scope) : List (Scope × Node) :=
  scopes.flatMap fun s =>
    ((tree s.unit).nodes.filter fun n => n.die.describesType).map fun n => (s, n)

section Units

open Work

variable {sections : Sections} {units rest : List CompiledUnit} {index : Nat}
  {tree : CompiledUnit → Forest} {log left : Array Log.Event}

theorem forall₂_of_gives_decodeFrom {types : List (Entry × Bool)}
    (follows : ∀ u ∈ rest, u.outline.Follows sections (tree u))
    (h : Gives sections log (decodeFrom units index rest) types left) :
    List.Forall₂ (fun p t => p.1.Renders sections p.2 t.1 ∧ t.2 = decide (p.2.depth = 1))
      (typeNodes tree (scopesFrom units index rest)) types := by
  induction rest generalizing index log types with
  | nil =>
    obtain ⟨rfl, -⟩ := gives_pure_iff.mp h
    exact .nil
  | cons u rest ih =>
    obtain ⟨here, middle, hhere, hrest⟩ := gives_bind_iff.mp h
    obtain ⟨later, hlater, rfl⟩ := gives_map_iff.mp hrest
    unfold typeNodes scopesFrom
    rw [List.zipIdx_cons, List.map_cons, List.flatMap_cons]
    refine List.rel_append (List.forall₂_map_left_iff.mpr ?here) ?later
    case here =>
      exact Scope.forall₂_of_gives_entries (s := ⟨units, index, u, u.outline⟩)
        (follows u List.mem_cons_self) hhere
    case later => exact ih (fun v hv => follows v (List.mem_cons_of_mem _ hv)) hlater

/-! ## Ids -/

theorem index_lt_of_mem_scopes {s : Scope} (h : s ∈ scopes units) : s.index < units.length := by
  obtain ⟨⟨u, index⟩, hmem, rfl⟩ := List.mem_map.mp h
  have hrange := List.mem_zipIdx hmem
  dsimp only
  omega

theorem unit_mem_of_mem_scopes {s : Scope} (h : s ∈ scopes units) : s.unit ∈ units := by
  obtain ⟨⟨u, index⟩, hmem, rfl⟩ := List.mem_map.mp h
  exact List.fst_mem_of_mem_zipIdx hmem

theorem scopes_pairwise : (scopes units).Pairwise fun s t => s.index < t.index := by
  have hindexes : ((scopes units).map Scope.index).Pairwise (· < ·) := by
    unfold scopes scopesFrom
    rw [List.map_map]
    show ((units.zipIdx 0).map Prod.snd).Pairwise (· < ·)
    rw [List.zipIdx_map_snd]
    exact List.pairwise_lt_range'
  exact List.pairwise_map.mp hindexes

theorem mem_of_mem_typeNodes {p : Scope × Node} (h : p ∈ typeNodes tree (scopes units)) :
    p.1 ∈ scopes units ∧ p.2 ∈ (tree p.1.unit).nodes := by
  obtain ⟨s, hs, hp⟩ := List.mem_flatMap.mp h
  obtain ⟨n, hn, rfl⟩ := List.mem_map.mp hp
  exact ⟨hs, List.mem_of_mem_filter hn⟩

/-- The entries of a forest that a walk follows stand at ascending places. -/
theorem places_of_follows {u : CompiledUnit} {f : Forest}
    (follows : u.outline.Follows sections f) :
    f.nodes.Pairwise fun n m => n.die.place < m.die.place := by
  have hascends := u.walk_ascends sections
  have hwalk : u.walk.run sections = ⟨stepsFrom 0 f.nodes, none⟩ := follows.walk
  rw [hwalk] at hascends
  dsimp only at hascends
  rw [map_place_stepsFrom] at hascends
  exact List.pairwise_map.mp hascends

/-- The entries come in the order of their units, and of their places in a unit. -/
theorem typeNodes_pairwise (follows : ∀ u ∈ units, u.outline.Follows sections (tree u)) :
    (typeNodes tree (scopes units)).Pairwise fun p q =>
      p.1.index < q.1.index ∨ p.1.index = q.1.index ∧ p.2.die.place < q.2.die.place := by
  unfold typeNodes
  rw [List.pairwise_flatMap]
  constructor
  · intro s hs
    have hplaces := places_of_follows (follows s.unit (unit_mem_of_mem_scopes hs))
    refine List.pairwise_map.mpr ((hplaces.filter _).imp fun hlt => ?_)
    exact .inr ⟨rfl, hlt⟩
  · refine scopes_pairwise.imp fun hlt p hp q hq => ?_
    obtain ⟨n, -, rfl⟩ := List.mem_map.mp hp
    obtain ⟨m, -, rfl⟩ := List.mem_map.mp hq
    exact .inl hlt

/-- Ids are in the order of the units and places that they name. -/
theorem raw_ofUnit_lt {u u' o o' : Nat} (hu : u < Word.halfCount) (hu' : u' < Word.halfCount)
    (ho : o < Word.halfCount) (ho' : o' < Word.halfCount) (h : u < u' ∨ u = u' ∧ o < o') :
    (EntryId.ofUnit u o).raw < (EntryId.ofUnit u' o').raw := by
  simp only [EntryId.ofUnit, Word.halfCount] at *
  omega

theorem ids_nodup (few : units.length ≤ Word.halfCount)
    (follows : ∀ u ∈ units, u.outline.Follows sections (tree u))
    (fits : ∀ u ∈ units, ∀ n ∈ (tree u).nodes, n.die.place < Word.halfCount) :
    ((typeNodes tree (scopes units)).map fun p => p.1.idOf p.2.die).Nodup := by
  have bounds {p : Scope × Node} (hp : p ∈ typeNodes tree (scopes units)) :
      p.1.index < Word.halfCount ∧ p.2.die.place < Word.halfCount := by
    obtain ⟨hs, hn⟩ := mem_of_mem_typeNodes hp
    exact ⟨Nat.lt_of_lt_of_le (index_lt_of_mem_scopes hs) few,
      fits p.1.unit (unit_mem_of_mem_scopes hs) p.2 hn⟩
  refine List.pairwise_map.mpr ((typeNodes_pairwise follows).imp_of_mem fun hp hq hlt hsame => ?_)
  have hraw := raw_ofUnit_lt (bounds hp).1 (bounds hq).1 (bounds hp).2 (bounds hq).2 hlt
  exact Nat.ne_of_lt hraw (congrArg EntryId.raw hsame)

/-- No entry has an id of no unit. -/
theorem idOf_ne_of_noUnit {s : Scope} {d : Die} (h : s.index < Scope.noUnit) (offset : Nat) :
    s.idOf d ≠ .ofUnit Scope.noUnit offset := by
  intro hsame
  have hraw := congrArg EntryId.raw hsame
  simp only [Scope.idOf, EntryId.ofUnit, Word.halfCount, Scope.noUnit] at h hraw
  omega

theorem ids_of_renders {nodes : List (Scope × Node)} {entries : List Entry}
    (h : List.Forall₂ (fun p e => p.1.Renders sections p.2 e) nodes entries) :
    entries.map Entry.id = nodes.map fun p => p.1.idOf p.2.die := by
  induction h with
  | nil => rfl
  | cons hhere _ ih => rw [List.map_cons, List.map_cons, ih, hhere.1]

/-! ## What stands at the top -/

theorem map_id_filter_snd {α : Type} {top : α → Bool} {id : α → EntryId} {R : α → Entry → Prop}
    {items : List α} {types : List (Entry × Bool)} (named : ∀ a e, R a e → e.id = id a)
    (h : List.Forall₂ (fun a t => R a t.1 ∧ t.2 = top a) items types) :
    (types.filter Prod.snd).map (fun t => t.1.id) = (items.filter top).map id := by
  induction h with
  | nil => rfl
  | @cons a t items types hhere _ ih =>
    obtain ⟨hR, htop⟩ := hhere
    cases hflag : top a with
    | true =>
      rw [List.filter_cons_of_pos (by rw [htop, hflag]), List.filter_cons_of_pos hflag,
        List.map_cons, List.map_cons, ih, named a t.1 hR]
    | false =>
      rw [List.filter_cons_of_neg (by simp [htop, hflag]),
        List.filter_cons_of_neg (by simp [hflag]), ih]

/-- Of the entries that describe types, those at depth one stand in the second row. -/
theorem top_of_typeNodes :
    ((typeNodes tree (scopes units)).filter fun p => p.2.depth = 1).map
        (fun p => p.1.idOf p.2.die) =
      (scopes units).flatMap fun s =>
        ((tree s.unit).secondRow.filter Die.describesType).map s.idOf := by
  unfold typeNodes
  rw [List.filter_flatMap, List.map_flatMap]
  congr 1
  funext s
  rw [List.filter_map, List.map_map, ← Forest.map_filter_second (tree s.unit) 0, List.filter_map,
    List.map_map, List.filter_filter, List.filter_filter]
  exact congrArg _ (List.filter_congr fun n _ => Bool.and_comm _ _)

/-! ## Whole sections -/

theorem gives_of_decode {contents : Contents} (held : allUnits.result sections = .ok units)
    (h : sections.decode.1 = .ok contents) :
    ∃ log left, Gives sections log (decodeFrom units 0 units) contents.types left := by
  obtain ⟨log, hdecode⟩ : ∃ log, Gives sections #[] decode contents log := by
    unfold Sections.decode at h
    unfold Gives outcome
    rcases hrun : Script.run sections (decode.run.run #[]) with ⟨r, log⟩
    rw [hrun] at h
    exact ⟨log, Prod.ext h rfl⟩
  obtain ⟨units', middle, hunits, hrest⟩ := gives_bind_iff.mp hdecode
  have hsame : allUnits.result sections = .ok units' := congrArg Prod.fst hunits
  obtain rfl := Except.ok.inj (held.symm.trans hsame)
  obtain ⟨types, htypes, rfl⟩ := gives_map_iff.mp hrest
  exact ⟨_, _, htypes⟩

end Units

end LayoutGraph.Dwarf

namespace LayoutGraph

/-! ## The law -/

open Dwarf Work

theorem Image.ofSections_ok {origin : String} {littleEndian : Bool} {sections : Sections}
    {image : Image} {log : List Log.Event}
    (h : Image.ofSections origin littleEndian sections = (.ok image, log)) :
    ∃ contents, sections.decode.1 = .ok contents ∧
      image = Image.ofContents origin littleEndian contents := by
  unfold Image.ofSections at h
  rcases hdecode : sections.decode with ⟨r, events⟩
  rw [hdecode] at h
  cases r with
  | error fault => cases h
  | ok contents =>
    cases h
    exact ⟨contents, rfl, rfl⟩

/-- Types are decoded as the entries of the units hang together, whatever the shape of the trees. The
image has one entry for each that has the tag of a type, and no other, in the order of the units and
of their documents. Each has an id of its own, which is no id of no unit, and the parts that its own
children give. At the top stand those directly below the roots. -/
theorem types_are_decoded_as_their_entries_hang_together (origin : String) (littleEndian : Bool)
    {sections : Sections} {units : List CompiledUnit} (held : allUnits.result sections = .ok units)
    (few : units.length < Scope.noUnit) {tree : CompiledUnit → Forest}
    (follows : ∀ u ∈ units, u.outline.Follows sections (tree u))
    (fits : ∀ u ∈ units, ∀ n ∈ (tree u).nodes, n.die.place < Word.halfCount) {image : Image}
    {log : List Log.Event}
    (decoded : Image.ofSections origin littleEndian sections = (.ok image, log)) :
    List.Forall₂ (fun p e => p.1.Renders sections p.2 e) (typeNodes tree (scopes units))
        image.entries ∧
      (image.entries.map Entry.id).Nodup ∧
      (∀ e ∈ image.entries, ∀ offset, e.id ≠ .ofUnit Scope.noUnit offset) ∧
      image.topLevel = (scopes units).flatMap fun s =>
        ((tree s.unit).secondRow.filter Die.describesType).map s.idOf := by
  obtain ⟨contents, hcontents, rfl⟩ := Image.ofSections_ok decoded
  obtain ⟨start, left, hgives⟩ := gives_of_decode held hcontents
  have htypes := forall₂_of_gives_decodeFrom follows hgives
  have hentries : List.Forall₂ (fun p e => p.1.Renders sections p.2 e)
      (typeNodes tree (scopes units)) (contents.types.map Prod.fst) :=
    List.forall₂_map_right_iff.mpr (htypes.imp fun _ _ h => h.1)
  have hids := ids_of_renders hentries
  refine ⟨hentries, ?nodup, ?somewhere, ?top⟩
  case nodup =>
    show ((contents.types.map Prod.fst).map Entry.id).Nodup
    rw [hids]
    exact ids_nodup (Nat.le_of_lt (Nat.lt_of_lt_of_le few (by decide))) follows fits
  case somewhere =>
    intro e he
    have hid : e.id ∈ (contents.types.map Prod.fst).map Entry.id := List.mem_map_of_mem he
    rw [hids] at hid
    obtain ⟨p, hp, hpid⟩ := List.mem_map.mp hid
    have hindex := index_lt_of_mem_scopes (mem_of_mem_typeNodes hp).1
    rw [← hpid]
    exact idOf_ne_of_noUnit (Nat.lt_trans hindex few)
  case top =>
    show (contents.types.filter Prod.snd).map (fun t => t.1.id) = _
    rw [← top_of_typeNodes]
    exact map_id_filter_snd (fun _ _ h => h.1) htypes

namespace Dwarf

/-- Two units. The first has a namespace with a structure that holds an enumeration, another
structure and members of all sorts, and a function that holds an array; the second a structure that
holds itself. -/
def nested : Sections where
  info := { bytes := #[
    41, 0, 0, 0, 4, 0, 0, 0, 0, 0, 8,
    1,
    13, 4,
    2,
      3,
        7,
          8, 65, 0,
          9,
        0,
        4, 12,
        5, 12,
        6,
        3,
          4, 12,
        0,
        4, 16,
      0,
    0,
    10,
      11, 12,
        12, 3,
        12, 2,
      0,
    0,
    0,
    13, 0, 0, 0, 4, 0, 0, 0, 0, 0, 8,
    1,
    3,
      4, 12,
    0,
    0] }
  abbreviations := { bytes := #[
    1, 0x11, 1, 0, 0,
    2, 0x39, 1, 0, 0,
    3, 0x13, 1, 0, 0,
    4, 0x0d, 0, 0x49, 0x11, 0, 0,
    5, 0x0d, 0, 0x3f, 0x19, 0x3c, 0x19, 0x49, 0x11, 0, 0,
    6, 0x0d, 0, 0, 0,
    7, 0x04, 1, 0, 0,
    8, 0x28, 0, 0x03, 0x08, 0, 0,
    9, 0x28, 0, 0, 0,
    10, 0x2e, 1, 0, 0,
    11, 0x01, 1, 0x49, 0x11, 0, 0,
    12, 0x21, 0, 0x37, 0x0b, 0, 0,
    13, 0x24, 0, 0x0b, 0x0b, 0, 0,
    0] }

def nestedAbbreviations : List Abbreviation := [
  ⟨1, .other, true, []⟩,
  ⟨2, .other, true, []⟩,
  ⟨3, .structureType, true, []⟩,
  ⟨4, .member, false, [⟨.type, 0x11, none⟩]⟩,
  ⟨5, .member, false, [⟨.external, 0x19, none⟩, ⟨.declaration, 0x19, none⟩, ⟨.type, 0x11, none⟩]⟩,
  ⟨6, .member, false, []⟩,
  ⟨7, .enumerationType, true, []⟩,
  ⟨8, .enumerator, false, [⟨.name, 0x08, none⟩]⟩,
  ⟨9, .enumerator, false, []⟩,
  ⟨10, .other, true, []⟩,
  ⟨11, .arrayType, true, [⟨.type, 0x11, none⟩]⟩,
  ⟨12, .subrangeType, false, [⟨.count, 0x0b, none⟩]⟩,
  ⟨13, .baseType, false, [⟨.byteSize, 0x0b, none⟩]⟩]

/-- The units that the sections hold. -/
def nestedUnits : List CompiledUnit := [
  ⟨false, 0, 11, 45, ⟨4, 4, 8⟩, .other, nestedAbbreviations, 0⟩,
  ⟨false, 45, 11, 62, ⟨4, 4, 8⟩, .other, nestedAbbreviations, 0⟩]

def whole (place next : Nat) (tag : Tag) (hasChildren : Bool) (attributes : List Attribute) : Die :=
  ⟨place, tag, hasChildren, ⟨attributes, none⟩, next⟩

def ofType (place : Nat) : Attribute := ⟨.type, .unitReference place⟩

/-- How the entries of the two units hang together. -/
def nestedTree (u : CompiledUnit) : Forest :=
  if u.start = 0 then
    .cons (whole 11 12 .other true []) (
      .cons (whole 12 14 .baseType false [⟨.byteSize, .data 1 4⟩]) .nil <|
      .cons (whole 14 15 .other true []) (
        .cons (whole 15 16 .structureType true []) (
          .cons (whole 16 17 .enumerationType true []) (
            .cons (whole 17 20 .enumerator false [⟨.name, .text [65]⟩]) .nil <|
            .cons (whole 20 21 .enumerator false []) .nil .nil) <|
          .cons (whole 22 24 .member false [ofType 12]) .nil <|
          .cons (whole 24 26 .member false
            [⟨.external, .flag true⟩, ⟨.declaration, .flag true⟩, ofType 12]) .nil <|
          .cons (whole 26 27 .member false []) .nil <|
          .cons (whole 27 28 .structureType true []) (
            .cons (whole 28 30 .member false [ofType 12]) .nil .nil) <|
          .cons (whole 31 33 .member false [ofType 16]) .nil .nil) .nil) <|
      .cons (whole 35 36 .other true []) (
        .cons (whole 36 38 .arrayType true [ofType 12]) (
          .cons (whole 38 40 .subrangeType false [⟨.count, .data 1 3⟩]) .nil <|
          .cons (whole 40 42 .subrangeType false [⟨.count, .data 1 2⟩]) .nil .nil) .nil) .nil) .nil
  else
    .cons (whole 11 12 .other true []) (
      .cons (whole 12 13 .structureType true []) (
        .cons (whole 13 15 .member false [ofType 12]) .nil .nil) .nil) .nil

/-- What the entries with the tag of a type describe. -/
def nestedEntries : List Entry := [
  ⟨.ofUnit 0 12, some "void", some 4, .base⟩,
  ⟨.ofUnit 0 15, none, none, .compound .struct
    [⟨none, 0, .ofUnit 0 12, none, none⟩, ⟨none, 0, .ofUnit 0 16, none, none⟩] false⟩,
  ⟨.ofUnit 0 16, none, none, .enumeration [⟨"A", 0⟩]⟩,
  ⟨.ofUnit 0 27, none, none, .compound .struct [⟨none, 0, .ofUnit 0 12, none, none⟩] false⟩,
  ⟨.ofUnit 0 36, none, none, .array (.ofUnit 0 12) [3, 2]⟩,
  ⟨.ofUnit 1 12, none, none, .compound .struct [⟨none, 0, .ofUnit 1 12, none, none⟩] false⟩]

theorem nested_types_are_decoded_where_they_hang :
    allUnits.result nested = .ok nestedUnits ∧ nestedUnits.length < Scope.noUnit ∧
      (∀ u ∈ nestedUnits, u.outline.Follows nested (nestedTree u)) ∧
      (∀ u ∈ nestedUnits, ∀ n ∈ (nestedTree u).nodes, n.die.place < Word.halfCount) ∧
      ∃ image log, Image.ofSections "a.o" true nested = (.ok image, log) ∧
        image.entries = nestedEntries ∧
        List.Forall₂ (fun p e => p.1.Renders nested p.2 e)
          (typeNodes nestedTree (scopes nestedUnits)) image.entries ∧
        (image.entries.map Entry.id).Nodup ∧
        (∀ e ∈ image.entries, ∀ offset, e.id ≠ .ofUnit Scope.noUnit offset) ∧
        image.topLevel = (scopes nestedUnits).flatMap fun s =>
          ((nestedTree s.unit).secondRow.filter Die.describesType).map s.idOf := by
  have held : allUnits.result nested = .ok nestedUnits := by decide +kernel
  have few : nestedUnits.length < Scope.noUnit := by decide
  have follows : ∀ u ∈ nestedUnits, u.outline.Follows nested (nestedTree u) := by decide +kernel
  have fits : ∀ u ∈ nestedUnits, ∀ n ∈ (nestedTree u).nodes, n.die.place < Word.halfCount := by
    decide +kernel
  have found : (Image.ofSections "a.o" true nested).1.toOption.map Image.entries =
      some nestedEntries := by decide +kernel
  refine ⟨held, few, follows, fits, ?_⟩
  rcases decoded : Image.ofSections "a.o" true nested with ⟨r, log⟩
  rw [decoded] at found
  cases r with
  | error failure => cases found
  | ok image =>
    exact ⟨image, log, rfl, Option.some.inj found,
      types_are_decoded_as_their_entries_hang_together "a.o" true held few follows fits decoded⟩

end Dwarf

end LayoutGraph
