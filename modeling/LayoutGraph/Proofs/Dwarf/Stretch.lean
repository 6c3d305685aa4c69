-- Where units lie: those of a section come one after another, each from its
-- header to where the next can start. What their roots say moves none of them.
import LayoutGraph.Proofs.Dwarf.Outcome
import LayoutGraph.Proofs.Dwarf.Ascent

namespace LayoutGraph.Dwarf

open Work Decoding

variable {sections : Sections}

/-! ## Headers -/

namespace Read

variable {α : Type} {c left : Cursor}

theorem advances_number (count : Nat) : Advances 0 (number count) :=
  (advances_take count false).weaken

theorem advances_readLength : Advances 0 readLength := by
  refine advances_bind (advances_number 4) fun short => ?_
  split
  · exact advances_pure
  · split
    · exact advances_bind (advances_number 8) fun _ => advances_pure
    · exact advances_throw _

/-- The stretch that is split off ends where the cursor goes on. -/
theorem stop_of_gives_split {count : Nat} {found : Cursor}
    (h : Gives sections c (split count) found left) : found.stop = left.place := by
  obtain ⟨start, middle, hget, hrest⟩ := gives_bind_iff.mp h
  split at hrest
  · obtain ⟨_, _, hset, hpure⟩ := gives_bind_iff.mp hrest
    obtain rfl := gives_set_iff.mp hset
    obtain ⟨rfl, rfl⟩ := gives_pure_iff.mp hpure
    rfl
  · exact (not_gives_throw hrest).elim

/-- The read from another cursor leaves this one where it is. -/
theorem left_of_gives_within {inner : Cursor} {read : Read α} {found : α × Cursor}
    (h : Gives sections c (within inner read) found left) : left = c := by
  obtain ⟨r, middle, hr, hrest⟩ := gives_bind_iff.mp h
  obtain ⟨-, rfl⟩ := gives_lift_iff.mp hr
  cases r with
  | ok found => exact (gives_pure_iff.mp hrest).2.symm
  | error defect => exact (not_gives_throw hrest).elim

end Read

/-- A unit starts where its header is read, and stops where the next one can start. -/
theorem stretch_of_gives_readUnit {inTypes : Bool} {c left : Cursor} {p : CompiledUnit × Nat}
    (h : Gives sections c (readUnit inTypes) p left) :
    p.1.inTypes = inTypes ∧ p.1.start = c.place ∧ p.1.stop = left.place ∧ c.place ≤ left.place := by
  obtain ⟨start, _, hget, hrest⟩ := gives_bind_iff.mp h
  obtain ⟨rfl, rfl⟩ := gives_get_iff.mp hget
  obtain ⟨⟨length, offsetBytes⟩, _, hlength, hrest⟩ := gives_bind_iff.mp hrest
  obtain ⟨within, _, hsplit, hrest⟩ := gives_bind_iff.mp hrest
  obtain ⟨⟨header, rest⟩, _, hwithin, hpure⟩ := gives_bind_iff.mp hrest
  obtain ⟨rfl, rfl⟩ := gives_pure_iff.mp hpure
  have hstop := Read.stop_of_gives_split hsplit
  obtain rfl := Read.left_of_gives_within hwithin
  exact ⟨rfl, rfl, hstop, Nat.le_trans (Read.advances_readLength _ _ _ _ hlength)
    (Nat.le_trans (Nat.le_add_right _ _) (Read.advances_split _ _ _ _ _ hsplit))⟩

/-! ## Sections -/

/-- Behind what was seen, latest first, come units one after another from a place on. -/
def InRow (inTypes : Bool) (seen : List (CompiledUnit × Nat)) (place : Nat)
    (r : Readable (CompiledUnit × Nat)) : Prop :=
  ∃ later, r.items = seen.reverse ++ later ∧
    later.Pairwise (fun p q => p.1.stop ≤ q.1.start) ∧
    ∀ p ∈ later, p.1.inTypes = inTypes ∧ place ≤ p.1.start

theorem inRow_readUnits (inTypes : Bool) (seen : List (CompiledUnit × Nat)) (fuel : Nat)
    (c : Cursor) :
    InRow inTypes seen c.place ((readUnits inTypes seen fuel c).run sections) := by
  have ends (seen : List (CompiledUnit × Nat)) (place : Nat) (defect : Option Defect) :
      InRow inTypes seen place (.found seen defect) :=
    ⟨[], (List.append_nil _).symm, .nil, fun _ h => by cases h⟩
  induction fuel generalizing seen c with
  | zero => exact ends seen c.place none
  | succ fuel ih =>
    unfold readUnits
    by_cases hend : c.atEnd
    · rw [if_pos hend]
      exact ends seen c.place none
    · rw [if_neg hend, Script.run_bind]
      cases hread : (Read.on c (readUnit inTypes)).run.run sections with
      | error defect => exact ends seen c.place (some defect)
      | ok found =>
        obtain ⟨p, left⟩ := found
        obtain ⟨htypes, hstart, hstop, hforward⟩ :=
          stretch_of_gives_readUnit (Trial.run_on_ok_iff.mp hread)
        obtain ⟨later, hitems, hpairwise, hlater⟩ := ih (p :: seen) left
        refine ⟨p :: later, ?_, .cons (fun q hq => ?_) hpairwise, fun q hq => ?_⟩
        · dsimp only at hitems ⊢
          rw [hitems, List.reverse_cons, List.append_assoc, List.singleton_append]
        · rw [hstop]
          exact (hlater q hq).2
        · rcases List.mem_cons.mp hq with rfl | hq
          · exact ⟨htypes, Nat.le_of_eq hstart.symm⟩
          · exact ⟨(hlater q hq).1, Nat.le_trans hforward (hlater q hq).2⟩

/-- The section of a unit, and where it starts and stops there. -/
def CompiledUnit.stretch (u : CompiledUnit) : Bool × Nat × Nat := (u.inTypes, u.start, u.stop)

/-- What the root of a unit says leaves the unit where it lies. -/
theorem stretch_of_complete {u v : CompiledUnit} {place : Nat}
    (h : (u.complete place).run.run sections = .ok v) :
    v.stretch = u.stretch := by
  obtain ⟨abbreviations, -, hrest⟩ := Trial.run_bind_ok_iff.mp h
  obtain ⟨root, -, hrest⟩ := Trial.run_bind_ok_iff.mp hrest
  dsimp only at hrest
  cases hdefect : root.attributes.defect with
  | some defect =>
    rw [hdefect] at hrest
    cases hrest
  | none =>
    rw [hdefect] at hrest
    obtain ⟨_, -, hrest⟩ := Trial.run_bind_ok_iff.mp hrest
    obtain ⟨_, -, hrest⟩ := Trial.run_bind_ok_iff.mp hrest
    obtain ⟨_, -, hrest⟩ := Trial.run_bind_ok_iff.mp hrest
    obtain ⟨_, -, hrest⟩ := Trial.run_bind_ok_iff.mp hrest
    cases hrest
    rfl

/-- The work on the units of a section leaves each where it lies. -/
theorem map_stretch_of_gives_gather {header unit : Task} {log left : Array Log.Event}
    {found : Readable (CompiledUnit × Nat)} {units : List CompiledUnit}
    (h : Gives sections log (gather header (fun (u, place) => do
      return some (← during unit (u.complete place))) found) units left) :
    found.items.map (fun p => p.1.stretch) = units.map CompiledUnit.stretch := by
  rw [← List.filter_true found.items, ← List.forall₂_eq_eq_eq]
  refine List.forall₂_map_left_iff.mpr (List.forall₂_map_right_iff.mpr
    (forall₂_of_gather (fun p _ log o left hwork => ?_) (fun p _ log u left hwork => ?_) h))
  · obtain ⟨_, -, rfl⟩ := gives_map_iff.mp hwork
    rfl
  · obtain ⟨_, hunit, hsame⟩ := gives_map_iff.mp hwork
    cases hsame
    exact (stretch_of_complete (gives_during_iff.mp hunit).1).symm

/-- The units of a section come one after another. -/
theorem stretch_of_gives_unitsOf {inTypes : Bool} {header unit : Task} {log left : Array Log.Event}
    {units : List CompiledUnit} (h : Gives sections log (unitsOf inTypes header unit) units left) :
    units.Pairwise (fun u v => u.stop ≤ v.start) ∧ ∀ u ∈ units, u.inTypes = inTypes := by
  obtain ⟨stop, _, -, hrest⟩ := gives_bind_iff.mp h
  obtain ⟨found, _, hfound, hgather⟩ := gives_bind_iff.mp hrest
  obtain ⟨hrun, -⟩ := gives_lift_iff.mp hfound
  obtain ⟨later, hitems, hpairwise, hlater⟩ := inRow_readUnits inTypes [] (stop + 1) _
  rw [hrun, List.reverse_nil, List.nil_append] at hitems
  subst hitems
  have hkept := map_stretch_of_gives_gather hgather
  constructor
  · have hall : (found.items.map fun p => p.1.stretch).Pairwise fun a b => a.2.2 ≤ b.2.1 :=
      List.pairwise_map.mpr hpairwise
    rw [hkept] at hall
    exact List.pairwise_map.mp hall
  · have hall : ∀ a ∈ found.items.map fun p => p.1.stretch, a.1 = inTypes :=
      List.forall_mem_map.mpr fun p hp => (hlater p hp).1
    rw [hkept] at hall
    exact fun u hu => hall u.stretch (List.mem_map_of_mem hu)

/-- Of all units, those that do not hold types of their own come one after another. -/
theorem allUnits_pairwise {units : List CompiledUnit}
    (held : allUnits.result sections = .ok units) :
    units.Pairwise fun u v => u.inTypes = false → v.inTypes = false → u.stop ≤ v.start := by
  have hgives : Gives sections #[] allUnits units _ := Prod.ext held rfl
  obtain ⟨info, _, hinfo, hrest⟩ := gives_bind_iff.mp hgives
  obtain ⟨types, htypes, rfl⟩ := gives_map_iff.mp hrest
  obtain ⟨hhere, -⟩ := stretch_of_gives_unitsOf hinfo
  obtain ⟨hthere, hall⟩ := stretch_of_gives_unitsOf htypes
  refine List.pairwise_append.mpr ⟨hhere.imp fun hstop _ _ => hstop,
    hthere.imp fun hstop _ _ => hstop, fun u _ v hv _ hnot => ?_⟩
  rw [hall v hv] at hnot
  cases hnot

end LayoutGraph.Dwarf
