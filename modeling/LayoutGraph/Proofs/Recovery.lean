-- The law of recovery: what a pass does about rows that it failed to see does
-- not show. The rows that it leaves and all that it reports, the count of
-- recovered conflicts apart, are those of a pass without faults.
import LayoutGraph.Proofs.Exactness
import LayoutGraph.Proofs.Recorder.SideBySide

namespace LayoutGraph

/-- From any rows, whatever look-ups of a pass find nothing and whatever inserts of taken keys fail
instead of naming the row: as long as the look-up right behind such a failure is truthful, the pass
ends as it does without faults. Its status and failure are the same, the counters differ in the
recovered conflicts alone, and the rows behind it are the same. -/
theorem a_recovered_conflict_does_not_show (source : Source) (m : Memory)
    (faults : Nat → Method → Option FaultMode)
    (only : ∀ call method fault, faults call method = some fault →
      fault = .miss ∨ fault = .collide) :
    let struck := Session.parse source ({ memory := m } : Truthful faults)
    let plain := Session.parse source m
    struck.1.map Session.told = plain.1.map Session.told ∧ struck.2.memory = plain.2 :=
  Session.parse_sideBySide (Truthful.mild only) mild_memory rfl rfl rfl rfl

/-- Look-ups that see no row, and inserts that name none. -/
def blind : Nat → Method → Option FaultMode := fun _ method =>
  match method with
  | .findOrigin | .findSymbol | .findField => some .miss
  | .insertOrigin | .insertSymbol | .insertField | .insertEnumerator => some .collide
  | _ => none

/-- All rows of the node are there, and a blind pass over it meets each of them as a conflict. -/
theorem a_blind_pass_over_the_node_recovers :
    let m := (Session.parse node.toSource ({} : Memory)).2
    let struck := Session.parse node.toSource ({ memory := m } : Truthful blind)
    let plain := Session.parse node.toSource m
    struck.1.toOption.map (fun reply => reply.2.tally.conflictsRecovered) = some 12 ∧
      plain.1.toOption.map (fun reply => reply.2.tally.conflictsRecovered) = some 0 ∧
      struck.1.map Session.told = plain.1.map Session.told ∧ struck.2.memory = plain.2 := by
  intro m struck plain
  have only : ∀ call method fault, blind call method = some fault →
      fault = .miss ∨ fault = .collide := by
    intro call method fault h
    cases method <;> simp only [blind, Option.some.injEq, reduceCtorEq] at h <;> simp [← h]
  obtain ⟨told, rows⟩ := a_recovered_conflict_does_not_show node.toSource m blind only
  exact ⟨by decide +kernel, by decide +kernel, told, rows⟩

end LayoutGraph
