-- The counters of a pass account for its rows. Whatever calls of a pass go
-- wrong and however it ends, the tables have gained as many symbols, fields and
-- constants as it counted, and if it went well each new field has its axes.
import LayoutGraph.Proofs.Dimensions
import LayoutGraph.Proofs.Recorder.Counted
import LayoutGraph.Proofs.Recorder.Gained

namespace LayoutGraph

open Chain Recording Survey

variable {σ : Type} [Store σ] [Unreliable σ]

/-- A call that comes back has counted the rows that came. -/
theorem counts_of_returned {source : Source} {s : σ} {report : Report} {session : Session}
    (returned : (Session.parse source s).1 = .ok (report, session)) :
    (Unreliable.memory (Session.parse source s).2).graph.counts =
      (Unreliable.memory s).graph.counts + session.tally.created := by
  let start : Recorder σ := { store := s }
  have balanced : Balanced (Unreliable.memory s).graph.counts start := (Counts.add_none _).symm
  rw [Session.parse_store, Session.tally_of_returned returned]
  exact write_balanced source (recalls_start s) balanced

/-- Whatever source is parsed into a store that came about by requests, and whichever of its calls
are struck by faults: a call that comes back, with any status, has counted as new just the symbols,
fields and constants that came. If its status is well, the fields that came are rows of members of
the source, and as many axes came as the arrays nest that these members hold by value. -/
theorem the_counters_account_for_every_row (source : Source) (s : σ)
    (reached : (Unreliable.memory s).Reached) {report : Report} {session : Session}
    (returned : (Session.parse source s).1 = .ok (report, session)) :
    let before := (Unreliable.memory s).graph
    let after := (Unreliable.memory (Session.parse source s).2).graph
    ∃ added, after = before ++ added ∧
      added.symbols.length = session.tally.symbolsCreated ∧
      added.fields.length = session.tally.fieldsCreated ∧
      added.enumerators.length = session.tally.enumeratorsCreated ∧
      (report.status = .ok → ∃ entries,
        added.fields.map after.readField = entries.map some ∧
        added.dimensions.length = ranks entries ∧
        ∀ e ∈ entries, e ∈ source.entries.fields ∧
          (source.Coherent → ∃ m, RowOf source m e.1 e.2)) := by
  intro before after
  obtain ⟨added, rows, -⟩ := (parse_grows source s).added reached.sound
  have counts := counts_of_returned returned
  rw [rows] at counts
  simp only [Graph.counts, Graph.append_def, List.length_append] at counts
  obtain ⟨symbols, fields, enumerators⟩ := Counts.mk.inj counts
  refine ⟨added, rows, Nat.add_left_cancel symbols, Nat.add_left_cancel fields,
    Nat.add_left_cancel enumerators, fun well => ?_⟩
  have outcome : Session.outcome source s = some .ok := by
    unfold Session.outcome
    rw [returned]
    exact congrArg some well
  obtain ⟨t, hwrite, hstore⟩ := Session.outcome_eq_ok outcome
  obtain ⟨more, entries, gains, hsub⟩ := write_gains source (recalls_start s) reached.sound hwrite
  have hmore : added = more := by
    have hrows : before ++ added = before ++ more := by
      rw [← rows, hstore]
      exact gains.rows
    exact Graph.append_cancel hrows
  subst hmore
  refine ⟨entries, ?_, gains.axes, fun e he => ⟨hsub he, fun coherent => ?_⟩⟩
  · show added.fields.map (Unreliable.memory (Session.parse source s).2).graph.readField = _
    rw [hstore]
    exact gains.reads.fields
  · obtain ⟨step, hstep, rfl⟩ := mem_fields_entriesOf.mp (hsub he)
    exact rowOf_of_mem_steps coherent hstep

/-- The second symbol is not found where it is, and its insert does not name it either. -/
def pestered : Nat → Method → Option FaultMode
  | 4, _ => some .miss
  | 5, _ => some .collide
  | _, _ => none

/-- Behind the rows of a point, a grid adds its own symbol alone, and its field with two axes. The
symbol of its cells is taken over from the point, though two calls about it are struck. -/
theorem a_pestered_grid_is_counted :
    let store := (Session.parse (point "a.o" 0 ⟨2⟩) ({} : Memory)).2
    let s : Scheduled pestered := { memory := store }
    let after := (Session.parse grid s).2.memory.graph
    store.Reached ∧ Session.outcome grid s = some .ok ∧
    (∃ report session, (Session.parse grid s).1 = .ok (report, session) ∧
      session.tally = ⟨1, 1, 1, 0, 0, 1⟩) ∧
    ∃ added entries, after = store.graph ++ added ∧ added.symbols.length = 1 ∧
      added.fields.length = 1 ∧ added.enumerators.length = 0 ∧ added.dimensions.length = 2 ∧
      added.fields.map after.readField = entries.map some ∧ ranks entries = 2 ∧
      ∀ e ∈ entries, ∃ m, RowOf grid m e.1 e.2 := by
  intro store s after
  have reached : store.Reached := Memory.steady_reached.parse _ .empty
  have outcome : Session.outcome grid s = some .ok := by decide +kernel
  obtain ⟨t, hwrite, -⟩ := Session.outcome_eq_ok outcome
  have returned := congrArg Prod.fst (Session.parse_of_ok hwrite)
  have tally : t.memo.tally = ⟨1, 1, 1, 0, 0, 1⟩ := by
    have counted : (left (Pass.write grid { store := s })).memo.tally = ⟨1, 1, 1, 0, 0, 1⟩ := by
      decide +kernel
    rw [hwrite] at counted
    exact counted
  have length : after.dimensions.length = store.graph.dimensions.length + 2 := by decide +kernel
  obtain ⟨added, rows, symbols, fields, enumerators, well⟩ :=
    the_counters_account_for_every_row grid s reached returned
  obtain ⟨entries, reads, axes, members⟩ := well rfl
  rw [tally] at symbols fields enumerators
  have two : added.dimensions.length = 2 := by
    rw [show after = store.graph ++ added from rows, Graph.append_def, List.length_append] at length
    omega
  exact ⟨reached, outcome, ⟨_, _, returned, tally⟩, added, entries, rows, symbols, fields,
    enumerators, two, reads, axes.symm.trans two, fun e he => (members e he).2 grid_coherent⟩

end LayoutGraph
