-- What a survey yields as a whole: all steps in a row, and the failure that
-- ends them. Only the last resolution of a survey can have a failure.
import LayoutGraph.Survey.Survey

namespace LayoutGraph

namespace Survey

/-- The dimension lists that a step takes from a store: one for an array field, none for any
other step. -/
def Step.lists : Step → Nat
  | .field step => if step.extents.isEmpty then 0 else 1
  | _ => 0

/-- The steps of resolutions, in order. -/
def stepsOf (rs : List Resolution) : List Step := rs.flatMap fun r => r.steps.toList

/-- The lists that steps take from a store, all together. -/
def listsOf : List Step → Nat
  | [] => 0
  | s :: rest => s.lists + listsOf rest

/-- The failure that ends resolutions. -/
def failureOf (rs : List Resolution) : Option Failure := rs.findSome? Resolution.failure

/-- Nothing comes after a failure. -/
def EndsAtFailure : List Resolution → Prop
  | [] => True
  | r :: rest => (r.failure = none ∨ rest = []) ∧ EndsAtFailure rest

theorem endsAtFailure_surveyFrom (source : Source) (ids : List EntryId) (p : Progress) :
    EndsAtFailure (surveyFrom source ids p).resolutions := by
  induction ids generalizing p with
  | nil => exact trivial
  | cons id rest ih =>
    unfold surveyFrom
    dsimp only
    split
    · exact ih _
    · rename_i r _
      split
      · exact ⟨.inr rfl, trivial⟩
      · rename_i hfailure
        exact ⟨.inl (by simpa using hfailure), ih _⟩

@[simp] theorem stepsOf_cons (r : Resolution) (rest : List Resolution) :
    stepsOf (r :: rest) = r.steps.toList ++ stepsOf rest := rfl

@[simp] theorem listsOf_cons (s : Step) (rest : List Step) :
    listsOf (s :: rest) = s.lists + listsOf rest := rfl

theorem stepsOf_append (a b : List Resolution) : stepsOf (a ++ b) = stepsOf a ++ stepsOf b :=
  List.flatMap_append

theorem listsOf_append (a b : List Step) : listsOf (a ++ b) = listsOf a + listsOf b := by
  induction a with
  | nil => simp [listsOf]
  | cons s rest ih =>
    rw [List.cons_append, listsOf_cons, listsOf_cons, ih]
    omega

theorem failureOf_eq_none {rs : List Resolution} :
    failureOf rs = none ↔ ∀ r ∈ rs, r.failure = none := by
  simp [failureOf]

/-- The first resolution has no failure where none has one. -/
theorem resolveTop_unfailing {source : Source} {id : EntryId} {rest : List EntryId} {start : Progress}
    (hok : failureOf (surveyFrom source (id :: rest) start).resolutions = none) {r : Resolution}
    (hr : (resolveTop source id start).1 = some r) : r.failure = none := by
  unfold surveyFrom at hok
  rcases htop : resolveTop source id start with ⟨resolution, next⟩
  rw [htop] at hok hr
  cases hr
  dsimp only at hok
  split at hok
  · exact failureOf_eq_none.mp hok r List.mem_cons_self
  · exact failureOf_eq_none.mp hok r List.mem_cons_self

end Survey

namespace Source

/-- Everything that a pass over the source writes. -/
def steps (source : Source) : List Survey.Step := Survey.stepsOf (Survey.survey source).resolutions

/-- The failure of the first entry that cannot be resolved. -/
def failure? (source : Source) : Option Failure :=
  Survey.failureOf (Survey.survey source).resolutions

/-- The dimension lists that a pass over the source takes from a store. -/
def lists (source : Source) : Nat := Survey.listsOf source.steps

end Source

end LayoutGraph
