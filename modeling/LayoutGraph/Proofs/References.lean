-- The law of references: which missing entries a pass reports. A pass that
-- ends well has found all that it had to follow, one that reports a reference
-- without an entry had to follow it, and where no entry is missing a pass
-- fails at a chain that is too long or not at all, as long as there are lists.
import LayoutGraph.Proofs.Dimensions
import LayoutGraph.Proofs.Stopping
import LayoutGraph.Proofs.Survey.Grounded

namespace LayoutGraph

open Survey

/-! ## Reports -/

/-- As long as there are lists, a pass reports the failure of its survey. -/
theorem parse_reports (source : Source) {m : Memory}
    (room : m.lists.last + source.lists ≤ ListCounter.greatest) :
    ∃ report session, (Session.parse source m).1 = .ok (report, session) ∧
      report.status = source.status ∧ report.failure = source.failure? := by
  obtain ⟨t, hwrite, -⟩ := write_enters (agrees_start m) room
  unfold Session.parse Source.status
  cases hfailure : source.failure? with
  | none =>
    rw [hfailure] at hwrite
    rw [hwrite]
    exact ⟨_, _, rfl, rfl, rfl⟩
  | some failure =>
    rw [hfailure] at hwrite
    rw [hwrite]
    dsimp only
    rw [if_pos (Source.failure?_handled hfailure)]
    exact ⟨_, _, rfl, rfl, rfl⟩

/-- Whatever a pass reports, it is the failure of its survey. -/
theorem report_of_parse {source : Source} {m : Memory}
    (counter : m.lists.last ≤ ListCounter.greatest) {report : Report} {session : Session}
    (h : (Session.parse source m).1 = .ok (report, session)) :
    report.status = source.status ∧ report.failure = source.failure? := by
  have hreturns : Session.outcome source m ≠ none := by
    unfold Session.outcome
    rw [h]
    exact Option.some_ne_none _
  obtain ⟨other, _, heq, hother⟩ := parse_reports source (room_of_outcome counter hreturns)
  cases h.symm.trans heq
  exact hother

theorem failure?_of_status_ok {source : Source} (h : source.status = .ok) :
    source.failure? = none := by
  unfold Source.status at h
  cases hfailure : source.failure? with
  | none => rfl
  | some e =>
    rw [hfailure] at h
    exact absurd h (Status.ofFailure_ne_ok e)

/-! ## The law -/

/-- A pass that ends well has found every listed id and every id that it had to follow. One that
reports a reference without an entry is right, and the reference is listed or had to be followed.
Where all of these have entries, a pass for which there are lists ends well or reports a chain that
is too long. -/
theorem missing_entries_are_reported_exactly (source : Source) (coherent : source.Coherent)
    (m : Memory) (counter : m.lists.last ≤ ListCounter.greatest) :
    (∀ report session, (Session.parse source m).1 = .ok (report, session) →
      (report.status = .ok → (∀ id ∈ source.topLevel, (source.find? id).isSome) ∧
        ∀ id, source.Needed id → (source.find? id).isSome) ∧
      ∀ id, report.failure = some (.unresolved id) →
        source.find? id = none ∧ (id ∈ source.topLevel ∨ source.Needed id)) ∧
    ((∀ id ∈ source.topLevel, (source.find? id).isSome) →
      (∀ id, source.Needed id → (source.find? id).isSome) →
      m.lists.last + source.lists ≤ ListCounter.greatest →
      ∃ report session, (Session.parse source m).1 = .ok (report, session) ∧
        (report.status = .ok ∨ ∃ id, report.failure = some (tooDeep id))) := by
  refine ⟨fun report session h => ?_, fun listed needed room => ?_⟩
  · obtain ⟨hstatus, hfailure⟩ := report_of_parse counter h
    refine ⟨fun hok => ?_, fun id hid => ?_⟩
    · exact found_of_survey coherent (failure?_of_status_ok (hstatus.symm.trans hok))
    · rcases failure_of_survey coherent (hfailure.symm.trans hid) with
        ⟨other, heq, hnone, hwhich⟩ | ⟨other, heq⟩
      · cases heq
        exact ⟨hnone, hwhich⟩
      · cases heq
  · obtain ⟨report, session, h, hstatus, hfailure⟩ := parse_reports source room
    refine ⟨report, session, h, ?_⟩
    cases hsurvey : source.failure? with
    | none =>
      left
      rw [hstatus, Source.status, hsurvey]
    | some e =>
      right
      rcases failure_of_survey coherent hsurvey with ⟨id, -, hnone, hid | hid⟩ | ⟨id, rfl⟩
      · have hsome := listed id hid
        simp [hnone] at hsome
      · have hsome := needed id hid
        simp [hnone] at hsome
      · exact ⟨id, hfailure.trans hsurvey⟩

theorem torn_coherent : torn.Coherent := by
  refine Source.coherent_of_own fun id e h => ?_
  unfold torn at h
  dsimp only at h
  split_ifs at h <;> cases h <;> rfl

/-- Everything that can be reached in the grid has an entry. -/
theorem grid_found {id : EntryId} (h : grid.Reachable id) : (grid.find? id).isSome := by
  have hid : id = ⟨1⟩ ∨ id = ⟨2⟩ ∨ id = ⟨3⟩ := by
    induction h with
    | listed hid => exact .inr (.inr (List.mem_singleton.mp hid))
    | step _ hfind htarget ih =>
      rcases ih with rfl | rfl | rfl <;> cases hfind <;> simp [Entry.references] at htarget
      · exact .inl htarget
      · exact .inr (.inl htarget)
  rcases hid with rfl | rfl | rfl <;> rfl

/-- Behind the rows of a ring the torn struct reports the entry that is missing, and the grid is
parsed. -/
theorem a_torn_struct_reports_what_is_missing :
    let m := (Session.parse ring ({} : Memory)).2
    m.lists.last ≤ ListCounter.greatest ∧ torn.find? ⟨9⟩ = none ∧ torn.Needed ⟨9⟩ ∧
      (∃ report session, (Session.parse torn m).1 = .ok (report, session) ∧
        report.failure = some (.unresolved ⟨9⟩)) ∧
      ∃ report session, (Session.parse grid m).1 = .ok (report, session) ∧
        (report.status = .ok ∨ ∃ id, report.failure = some (tooDeep id)) := by
  intro m
  have counter : m.lists.last ≤ ListCounter.greatest := by decide +kernel
  obtain ⟨report, session, hreport, -, hfailure⟩ :=
    parse_reports torn (m := m) (by decide +kernel)
  have hfailure : report.failure = some (.unresolved ⟨9⟩) := hfailure.trans (by decide +kernel)
  have law := missing_entries_are_reported_exactly torn torn_coherent m counter
  obtain ⟨hnone, hneeded⟩ := (law.1 report session hreport).2 ⟨9⟩ hfailure
  obtain ⟨-, well⟩ := missing_entries_are_reported_exactly grid grid_coherent m counter
  refine ⟨counter, hnone, hneeded.resolve_left (by decide), ⟨report, session, hreport, hfailure⟩,
    well (fun id hid => grid_found (.listed hid)) (fun id hid => grid_found hid.reachable) ?_⟩
  decide +kernel

/-- Where the last list has been used the pass over a grid ends the program, though no entry is
missing and no chain is too long. -/
theorem a_grid_without_a_missing_entry_finds_no_list :
    let m := (({} : Memory).insertDimension ⟨ListCounter.greatest⟩ 0 1).2
    m.Reached ∧ grid.Coherent ∧ (∀ id ∈ grid.topLevel, (grid.find? id).isSome) ∧
      (∀ id, grid.Needed id → (grid.find? id).isSome) ∧
      (Session.parse grid m).1 = .error (.overflow .add) := by
  intro m
  have last : ({} : Memory).answer (.insertDimension ⟨ListCounter.greatest⟩ 0 1) = .ok (⟨1⟩, m) :=
    rfl
  refine ⟨.serve .empty last, grid_coherent, fun id hid => grid_found (.listed hid),
    fun id hid => grid_found hid.reachable, ?_⟩
  have full : ListCounter.greatest < m.lists.last + grid.lists := by decide +kernel
  obtain ⟨t, hwrite⟩ := write_overflows (agrees_start m) (by decide +kernel) full
  unfold Session.parse
  rw [hwrite]
  rfl

end LayoutGraph
