-- A pass in one piece: the origin, then the steps of the survey in a row,
-- then the failure that ended the survey, if there was one.
import LayoutGraph.Pass
import LayoutGraph.Proofs.Recorder.Agreement
import LayoutGraph.Proofs.Survey.Yield

namespace LayoutGraph.Pass

open Chain Recording Survey

variable {σ : Type} [Store σ] {setting : Setting}

/-! ## Steps in a row -/

theorem writeSteps_append (a b : List Step) : (writeSteps setting (a ++ b) : Recording σ Unit) =
    (do writeSteps setting a; writeSteps setting b) := List.forM_append

theorem writeSteps_append_ok {a b : List Step} {r t : Recorder σ} :
    writeSteps setting (a ++ b) r = .ok ⟨⟩ t ↔
      ∃ m, writeSteps setting a r = .ok ⟨⟩ m ∧ writeSteps setting b m = .ok ⟨⟩ t := by
  rw [writeSteps_append, bind_ok_iff]
  exact ⟨fun ⟨_, m, hm, h⟩ => ⟨m, hm, h⟩, fun ⟨m, hm, h⟩ => ⟨⟨⟩, m, hm, h⟩⟩

theorem writeSteps_append_error {a b : List Step} {r t : Recorder σ} {e : Failure} :
    writeSteps setting (a ++ b) r = .error e t ↔ writeSteps setting a r = .error e t ∨
      ∃ m, writeSteps setting a r = .ok ⟨⟩ m ∧ writeSteps setting b m = .error e t := by
  rw [writeSteps_append, bind_error_iff]
  exact or_congr_right ⟨fun ⟨_, m, hm, h⟩ => ⟨m, hm, h⟩, fun ⟨m, hm, h⟩ => ⟨⟨⟩, m, hm, h⟩⟩

/-! ## Resolutions -/

theorem writeResolution_ok {r t : Recorder σ} {one : Resolution} :
    writeResolution setting one r = .ok () t ↔
      writeSteps setting one.steps.toList r = .ok ⟨⟩ t ∧ one.failure = none := by
  unfold writeResolution
  rw [bind_ok_iff]
  constructor
  · rintro ⟨_, m, hm, h⟩
    cases hfailure : one.failure with
    | some e =>
      rw [hfailure] at h
      cases h
    | none =>
      rw [hfailure] at h
      cases h
      exact ⟨hm, rfl⟩
  · rintro ⟨hm, hnone⟩
    exact ⟨⟨⟩, t, hm, by rw [hnone]; rfl⟩

/-- Resolutions that went well wrote all steps, and none of them failed. -/
theorem writeResolutions_ok {name : String} {rs : List Resolution} {r t : Recorder σ}
    (h : writeResolutions name setting rs r = .ok none t) :
    writeSteps setting (stepsOf rs) r = .ok ⟨⟩ t ∧ failureOf rs = none := by
  induction rs generalizing r with
  | nil =>
    cases h
    exact ⟨rfl, rfl⟩
  | cons one rest ih =>
    unfold writeResolutions at h
    split at h <;> rename_i heq
    · obtain ⟨hone, hnone⟩ := writeResolution_ok.mp heq
      obtain ⟨hrest, hfailure⟩ := ih h
      refine ⟨writeSteps_append_ok.mpr ⟨_, hone, hrest⟩, ?_⟩
      rw [failureOf_eq_none] at hfailure ⊢
      intro other hother
      rcases List.mem_cons.mp hother with rfl | hother
      · exact hnone
      · exact hfailure other hother
    · split at h
      · cases h
      · cases h

/-- Resolutions whose steps can all be written end as their survey did. -/
theorem writeResolutions_of_steps (name : String) {rs : List Resolution} {r t : Recorder σ}
    (ends : EndsAtFailure rs) (hands : ∀ e, failureOf rs = some e → handled e = true)
    (h : writeSteps setting (stepsOf rs) r = .ok ⟨⟩ t) :
    ∃ log, writeResolutions name setting rs r = .ok (failureOf rs) (t.withLog log) := by
  induction rs generalizing r with
  | nil =>
    cases h
    exact ⟨t.log, rfl⟩
  | cons one rest ih =>
    obtain ⟨m, hm, h⟩ := writeSteps_append_ok.mp h
    unfold writeResolutions
    cases hone : one.failure with
    | none =>
      have hfailure : failureOf (one :: rest) = failureOf rest := by simp [failureOf, hone]
      rw [writeResolution_ok.mpr ⟨hm, hone⟩, hfailure]
      exact ih ends.2 (fun e he => hands e (hfailure.trans he)) h
    | some e =>
      have hfailure : failureOf (one :: rest) = some e := by simp [failureOf, hone]
      have hrest : rest = [] := ends.1.resolve_left (by simp [hone])
      subst hrest
      cases h
      have herror : writeResolution setting one r = .error e t := by
        unfold writeResolution
        rw [bind_of_ok hm, hone]
        rfl
      rw [herror, hfailure]
      dsimp only
      rw [if_pos (hands e hfailure)]
      exact ⟨t.log.push (.entryFailed one.entry name e), rfl⟩

/-- A failure that no pass handles ends the resolutions where it comes. -/
theorem writeResolutions_unhandled (name : String) {rs : List Resolution} {r t : Recorder σ}
    {e : Failure} (ends : EndsAtFailure rs) (he : handled e = false)
    (h : writeSteps setting (stepsOf rs) r = .error e t) :
    writeResolutions name setting rs r = .error e t := by
  induction rs generalizing r with
  | nil => cases h
  | cons one rest ih =>
    unfold writeResolutions
    rcases writeSteps_append_error.mp h with h | ⟨m, hm, h⟩
    · have herror : writeResolution setting one r = .error e t := by
        unfold writeResolution
        exact bind_of_error h
      rw [herror]
      dsimp only
      rw [if_neg (by simp [he])]
    · cases hone : one.failure with
      | none =>
        rw [writeResolution_ok.mpr ⟨hm, hone⟩]
        exact ih ends.2 h
      | some d =>
        have hrest : rest = [] := ends.1.resolve_left (by simp [hone])
        subst hrest
        cases h

/-! ## The pass -/

/-- A pass that went well wrote the origin, then every step of a survey without failure, and then
asked for the commit. -/
theorem write_commits {source : Source} {r t : Recorder σ} (h : write source r = .ok () t) :
    source.failure? = none ∧ ∃ origin r1 log r2 r3,
      Recording.origin source.origin source.littleEndian r = .ok origin r1 ∧
      writeSteps ⟨origin, source.littleEndian⟩ source.steps (r1.withLog log) = .ok ⟨⟩ r2 ∧
      ask .commit r2 = .ok () r3 ∧ t.store = r3.store ∧ t.memo = r3.memo := by
  unfold write at h
  obtain ⟨origin, r1, horigin, h⟩ := bind_ok_iff.mp h
  obtain ⟨_, m, hm, h⟩ := bind_ok_iff.mp h
  cases hm
  obtain ⟨failure, r2, hwrite, h⟩ := bind_ok_iff.mp h
  obtain ⟨_, r3, hcommit, h⟩ := bind_ok_iff.mp h
  cases failure with
  | some e => cases h
  | none =>
    cases h
    obtain ⟨hsteps, hfailure⟩ := writeResolutions_ok hwrite
    exact ⟨hfailure, origin, r1, _, r2, r3, horigin, hsteps, hcommit, rfl, rfl⟩

/-- Where no call is struck the commit leaves the store as it is. -/
theorem write_ok [Faultless σ] {source : Source} {r t : Recorder σ}
    (h : write source r = .ok () t) :
    source.failure? = none ∧ ∃ origin r1 log r2,
      Recording.origin source.origin source.littleEndian r = .ok origin r1 ∧
      writeSteps ⟨origin, source.littleEndian⟩ source.steps (r1.withLog log) = .ok ⟨⟩ r2 ∧
      t.store = r2.store ∧ t.memo = r2.memo := by
  obtain ⟨hfailure, origin, r1, log, r2, r3, horigin, hsteps, hcommit, hstore, hmemo⟩ :=
    write_commits h
  obtain ⟨hserve, hsame, -⟩ := ask_ok hcommit
  rw [Faultless.commit] at hserve
  have hkept : r3.store = r2.store := by injection hserve with _ heq; exact heq.symm
  exact ⟨hfailure, origin, r1, log, r2, horigin, hsteps, hstore.trans hkept, hmemo.trans hsame⟩

/-- A pass whose rows can all be written ends as the survey of its source did. -/
theorem write_of_steps [Faultless σ] {source : Source} {r r1 t : Recorder σ} {origin : OriginId}
    (hands : ∀ e, source.failure? = some e → handled e = true)
    (horigin : Recording.origin source.origin source.littleEndian r = .ok origin r1)
    (hsteps : writeSteps ⟨origin, source.littleEndian⟩ source.steps
      (r1.withLog (r1.log.push (.walking source.topLevel.length source.littleEndian))) = .ok ⟨⟩ t) :
    ∃ log, write source r = match source.failure? with
      | some e => .error e (t.withLog log)
      | none => .ok () (t.withLog log) := by
  have hnote : note (.walking source.topLevel.length source.littleEndian) r1 =
      .ok () (r1.withLog (r1.log.push (.walking source.topLevel.length source.littleEndian))) := rfl
  have ends : EndsAtFailure (survey source).resolutions := endsAtFailure_surveyFrom _ _ _
  obtain ⟨log, hwrite⟩ := writeResolutions_of_steps source.origin ends hands hsteps
  have hcommit : ask .commit (t.withLog log) = .ok () (t.withLog log) :=
    ask_of_ok (Faultless.commit t.store)
  unfold write
  rw [bind_of_ok horigin, bind_of_ok hnote, bind_of_ok hwrite, bind_of_ok hcommit]
  unfold Source.failure?
  cases failureOf (survey source).resolutions with
  | some e => exact ⟨log, rfl⟩
  | none => exact ⟨_, rfl⟩

end LayoutGraph.Pass

namespace LayoutGraph

variable {σ : Type} [Store σ]

/-! ## Calls to parse -/

theorem Status.ofFailure_ne_ok (e : Failure) : Status.ofFailure e ≠ .ok := by
  cases e <;> simp [Status.ofFailure]

/-- The status with which a call to parse ends. An overflow gives none: it ends the program. -/
def Session.outcome (source : Source) (s : σ) : Option Status :=
  (Session.parse source s).1.toOption.map fun reply => reply.1.status

/-- A parse that went well is a pass that went well. -/
theorem Session.outcome_eq_ok {source : Source} {s : σ}
    (h : Session.outcome source s = some .ok) :
    ∃ t, Pass.write source { store := s } = .ok () t ∧ (Session.parse source s).2 = t.store := by
  unfold outcome Session.parse at h
  unfold Session.parse
  cases hwrite : Pass.write source { store := s } with
  | ok u t => exact ⟨t, rfl, rfl⟩
  | error e t =>
    rw [hwrite] at h
    dsimp only at h
    split at h
    · injection h with h
      exact absurd h (Status.ofFailure_ne_ok e)
    · cases h

/-- A call that comes back has the counters of its pass. -/
theorem Session.tally_of_returned {source : Source} {s : σ} {report : Report} {session : Session}
    (returned : (Session.parse source s).1 = .ok (report, session)) :
    session.tally = (Chain.left (Pass.write source { store := s })).memo.tally := by
  unfold Session.parse at returned
  cases hwrite : Pass.write source { store := s } with
  | ok u t =>
    rw [hwrite] at returned
    cases returned
    rfl
  | error e t =>
    rw [hwrite] at returned
    dsimp only at returned
    split at returned <;> cases returned
    rfl

theorem Session.parse_of_ok {source : Source} {s : σ} {t : Recorder σ}
    (h : Pass.write source { store := s } = .ok () t) :
    Session.parse source s =
      (.ok (⟨.ok, none, t.log.toList⟩, ⟨.succeeded, t.memo.tally⟩), t.store) := by
  unfold Session.parse
  rw [h]

end LayoutGraph
