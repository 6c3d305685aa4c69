-- What the limit on chains refuses. It counts the references of a chain, and
-- it also counts the compounds and typedefs that are open around the chain. So
-- it lets through every source of short chains whose nests are not deep, and
-- it refuses some sources whose chains are all short.
import LayoutGraph.Proofs.Ledger.Pass
import LayoutGraph.Proofs.Source.Coherent
import LayoutGraph.Proofs.Survey.Room

namespace LayoutGraph

open Survey

/-- A source of short chains is parsed, whatever its order, where the entries that can be open at
once and the chains to them stay within the limit. -/
theorem a_source_of_shallow_nests_is_parsed (source : Source) (coherent : source.Coherent)
    {hops depth : Nat} (shallow : Shallow source hops depth)
    (within : depth * (hops + 2) + hops ≤ maxDepth) (m : Memory)
    (room : m.lists.last + source.lists ≤ ListCounter.greatest) :
    Session.outcome source m = some .ok := by
  have enough : need hops depth [] hops ≤ fullRoom := Nat.succ_le_succ within
  rw [(parse_memory source room).1, Source.status, failure?_of_shallow coherent shallow enough]

/-! ## Linked structs -/

/-- Structs at every fourth place, each with a member that leads to the next struct through a
constant pointer to a constant; what the last one points to has no type. -/
def linkedEntry (count place : Nat) : Entry :=
  match place % 4 with
  | 0 => ⟨⟨place⟩, some ("S" ++ toString (place / 4)), some 8,
      .compound .struct [⟨some "next", 0, ⟨place + 1⟩, none, none⟩] false⟩
  | 1 => ⟨⟨place⟩, none, none, .qualified (some ⟨place + 1⟩)⟩
  | 2 => ⟨⟨place⟩, none, some 8, .pointer (some ⟨place + 1⟩)⟩
  | _ => ⟨⟨place⟩, none, none,
      .qualified (if place + 1 < 4 * count then some ⟨place + 1⟩ else none)⟩

/-- That many linked structs, the first one listed first. -/
def linked (count : Nat) : Source where
  origin := "linked.o"
  littleEndian := true
  topLevel := (List.range count).map fun k => ⟨4 * k⟩
  find? id := if id.raw < 4 * count then some (linkedEntry count id.raw) else none

theorem linked_find? {count place : Nat} (h : place < 4 * count) :
    (linked count).find? ⟨place⟩ = some (linkedEntry count place) := if_pos h

theorem linkedEntry_id (count place : Nat) : (linkedEntry count place).id = ⟨place⟩ := by
  unfold linkedEntry
  split <;> rfl

theorem linked_found {count : Nat} {id : EntryId} {e : Entry}
    (h : (linked count).find? id = some e) :
    id.raw < 4 * count ∧ e = linkedEntry count id.raw := by
  have h : (if id.raw < 4 * count then some (linkedEntry count id.raw) else none) = some e := h
  split at h
  · cases h
    exact ⟨‹_›, rfl⟩
  · cases h

theorem linked_coherent (count : Nat) : (linked count).Coherent := by
  refine Source.coherent_of_own fun id e h => ?_
  rw [(linked_found h).2, linkedEntry_id]

theorem linkedEntry_next? {count place : Nat} (h : place < 4 * count) :
    (linkedEntry count place).next? =
      if place % 4 ≠ 0 ∧ place + 1 < 4 * count then some ⟨place + 1⟩ else none := by
  have hplace : place % 4 = 0 ∨ place % 4 = 1 ∨ place % 4 = 2 ∨ place % 4 = 3 := by omega
  rcases hplace with hmod | hmod | hmod | hmod
  · simp [linkedEntry, Entry.next?, hmod]
  · simp [linkedEntry, Entry.next?, hmod, show place + 1 < 4 * count by omega]
  · simp [linkedEntry, Entry.next?, hmod, show place + 1 < 4 * count by omega]
  · simp [linkedEntry, Entry.next?, hmod]

/-- The structs are the entries that open. -/
theorem linkedEntry_opens {count place : Nat} (h : (linkedEntry count place).opens) :
    place % 4 = 0 := by
  have hplace : place % 4 = 0 ∨ place % 4 = 1 ∨ place % 4 = 2 ∨ place % 4 = 3 := by omega
  rcases hplace with hmod | hmod | hmod | hmod
  · exact hmod
  · simp [linkedEntry, Entry.opens, hmod] at h
  · simp [linkedEntry, Entry.opens, hmod] at h
  · simp [linkedEntry, Entry.opens, hmod] at h

/-- An entry refers to the next one alone. -/
theorem linkedEntry_references {count place : Nat} (h : place < 4 * count) {target : EntryId}
    (htarget : target ∈ (linkedEntry count place).references) : target.raw < 4 * count := by
  have hplace : place % 4 = 0 ∨ place % 4 = 1 ∨ place % 4 = 2 ∨ place % 4 = 3 := by omega
  have next : target = ⟨place + 1⟩ ∧ (place % 4 = 3 → place + 1 < 4 * count) := by
    rcases hplace with hmod | hmod | hmod | hmod
    · simpa [linkedEntry, Entry.references, hmod] using htarget
    · simpa [linkedEntry, Entry.references, hmod] using htarget
    · simpa [linkedEntry, Entry.references, hmod] using htarget
    · simpa [linkedEntry, Entry.references, hmod, and_comm, eq_comm] using htarget
  obtain ⟨rfl, hlast⟩ := next
  show place + 1 < 4 * count
  omega

theorem linked_reachable {count : Nat} {id : EntryId} (h : (linked count).Reachable id) :
    id.raw < 4 * count := by
  induction h with
  | listed hid =>
    obtain ⟨k, hk, rfl⟩ := List.mem_map.mp hid
    have := List.mem_range.mp hk
    show 4 * k < 4 * count
    omega
  | step _ hfind htarget ih =>
    obtain ⟨-, rfl⟩ := linked_found hfind
    exact linkedEntry_references ih htarget

theorem linked_endsWithin {count left place : Nat} (h : place < 4 * count)
    (hleft : (place + left) % 4 = 0) : EndsWithin (linked count) left ⟨place⟩ := by
  induction left generalizing place with
  | zero => exact .stop (linked_find? h) (by rw [linkedEntry_next? h, if_neg (by omega)])
  | succ left ih =>
    by_cases hnext : place % 4 ≠ 0 ∧ place + 1 < 4 * count
    · exact .hop (linked_find? h) ((linkedEntry_next? h).trans (if_pos hnext))
        (ih hnext.2 (by omega))
    · exact .stop (linked_find? h) ((linkedEntry_next? h).trans (if_neg hnext))

/-- However many structs are linked, their chains are short. -/
theorem linked_shallow (count : Nat) {hops : Nat} (h : 3 ≤ hops) :
    Shallow (linked count) hops count where
  ends id hid := by
    have hplace := linked_reachable hid
    have hleft : (id.raw + (4 - id.raw % 4) % 4) % 4 = 0 := by omega
    exact (linked_endsWithin hplace hleft).mono (by omega)
  sized e he kind members declaration hkind := by
    obtain ⟨id, -, hfind⟩ := he
    obtain ⟨-, rfl⟩ := linked_found hfind
    have hopens : (linkedEntry count id.raw).opens := by simp [Entry.opens, hkind]
    have hmod := linkedEntry_opens hopens
    simp [linkedEntry, hmod]
  nests nest nested := by
    have htop : (linked count).topLevel.length = count := by simp [linked]
    rw [← htop]
    refine nested.length_le fun e he hopens => ?_
    obtain ⟨id, -, hfind⟩ := he
    obtain ⟨hplace, rfl⟩ := linked_found hfind
    have hmod := linkedEntry_opens hopens
    rw [linkedEntry_id]
    refine List.mem_map.mpr ⟨id.raw / 4, List.mem_range.mpr (by omega), ?_⟩
    rw [show 4 * (id.raw / 4) = id.raw by omega]

theorem few_linked_structs_are_parsed :
    Shallow (linked 50) 3 50 ∧ (linked 50).lists = 0 ∧
      Session.outcome (linked 50) ({} : Memory) = some .ok := by
  have lists : (linked 50).lists = 0 := by decide +kernel
  refine ⟨linked_shallow 50 (by decide), lists, ?_⟩
  exact a_source_of_shallow_nests_is_parsed (linked 50) (linked_coherent 50)
    (linked_shallow 50 (Nat.le_refl 3)) (by decide) {} (by rw [lists]; decide)

/-- Sixty-five linked structs have short chains, and they are refused in one order and parsed in
the other: each struct is opened inside of the one before it. -/
theorem many_linked_structs_are_refused_in_one_order :
    let source := linked 65
    let backwards := { source with topLevel := source.topLevel.reverse }
    source.Coherent ∧ Shallow source 8 65 ∧
      source.failure? = some (tooDeep ⟨257⟩) ∧
      Session.outcome source ({} : Memory) = some .parseError ∧
      Session.outcome backwards ({} : Memory) = some .ok := by
  intro source backwards
  obtain ⟨refused, lists⟩ : source.failure? = some (tooDeep ⟨257⟩) ∧ source.lists = 0 := by
    decide +kernel
  obtain ⟨parsed, none⟩ : backwards.failure? = none ∧ backwards.lists = 0 := by decide +kernel
  refine ⟨linked_coherent 65, linked_shallow 65 (by decide), refused, ?_, ?_⟩
  · rw [(parse_memory source (by rw [lists]; decide)).1, Source.status, refused]
    rfl
  · rw [(parse_memory backwards (by rw [none]; decide)).1, Source.status, parsed]

end LayoutGraph
