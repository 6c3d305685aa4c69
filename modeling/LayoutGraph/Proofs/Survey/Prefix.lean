-- Surveys of one source under several lists of entries. What a list yields is
-- settled entry by entry: the entries behind a failure count for nothing, and
-- those before it yield what they yield without the rest.
import LayoutGraph.Proofs.Survey.Yield

namespace LayoutGraph

/-- The source with these entries listed. -/
def Source.withTopLevel (source : Source) (ids : List EntryId) : Source :=
  { source with topLevel := ids }

namespace Survey

variable (source : Source) (ids : List EntryId)

/-! ## Walks do not read the list -/

theorem entry_withTopLevel (id : EntryId) :
    (source.withTopLevel ids).entry id = source.entry id := rfl

theorem unqualified_withTopLevel (room : Nat) (id : EntryId) :
    unqualified (source.withTopLevel ids) room id = unqualified source room id := by
  induction room generalizing id with
  | zero => rfl
  | succ room ih => simp only [unqualified, entry_withTopLevel, ih]

theorem shapeFrom_withTopLevel (room : Nat) (crossed : Shape) (id : EntryId) :
    shapeFrom (source.withTopLevel ids) room crossed id = shapeFrom source room crossed id := by
  induction room generalizing crossed id with
  | zero => rfl
  | succ room ih => simp only [shapeFrom, entry_withTopLevel, ih]

theorem sizeOf_withTopLevel (room : Nat) (id : EntryId) :
    sizeOf (source.withTopLevel ids) room id = sizeOf source room id := by
  induction room generalizing id with
  | zero => rfl
  | succ room ih => simp only [sizeOf, entry_withTopLevel, ih]

theorem aliased_withTopLevel (room : Nat) (target : Option EntryId) :
    aliased (source.withTopLevel ids) room target = aliased source room target := by
  cases target with
  | none => rfl
  | some target => exact unqualified_withTopLevel source ids room target

theorem emitMembers_withTopLevel {room : Nat}
    {f g : (left : Nat) → left ≤ room → EntryId → Walk SymbolKey}
    (same : ∀ left hle id, f left hle id = g left hle id) (owner : SymbolKey)
    (members : List Member) :
    emitMembers (source.withTopLevel ids) room f owner members =
      emitMembers source room g owner members := by
  have hfg : f = g := by
    funext left hle id
    exact same left hle id
  subst hfg
  unfold emitMembers
  congr 1
  funext c
  obtain ⟨m, place⟩ := c
  have hshape : shapeOf (source.withTopLevel ids) room m.type = shapeOf source room m.type :=
    shapeFrom_withTopLevel source ids room {} m.type
  dsimp only
  -- The goal of a shape comes with a bound on its room, so the two shapes are split apart.
  split <;> rename_i here hhere <;> symm <;> split <;> rename_i there hthere
  · cases hhere.symm.trans (hshape.trans hthere)
    rfl
  · cases hhere.symm.trans (hshape.trans hthere)
  · cases hhere.symm.trans (hshape.trans hthere)
  · cases hhere.symm.trans (hshape.trans hthere)
    rfl

theorem resolve_withTopLevel (room : Nat) (id : EntryId) (name? : Option String) :
    resolve (source.withTopLevel ids) room id name? = resolve source room id name? := by
  induction room using Nat.strongRecOn generalizing id name? with
  | ind room ih =>
    unfold resolve
    cases room with
    | zero => rfl
    | succ room =>
      have next := ih room (Nat.lt_succ_self room)
      have members : ∀ room' ≤ room, ∀ owner members,
          emitMembers (source.withTopLevel ids) room'
              (fun left _ target => resolve (source.withTopLevel ids) left target none) owner
              members =
            emitMembers source room' (fun left _ target => resolve source left target none) owner
              members := by
        intro room' hle owner members
        apply emitMembers_withTopLevel
        intro left hleft target
        exact ih left (by omega) target none
      simp only [entry_withTopLevel, sizeOf_withTopLevel, aliased_withTopLevel, next,
        members room (Nat.le_refl room), members (room - 1) (by omega)]

theorem resolveTop_withTopLevel (id : EntryId) (start : Progress) :
    resolveTop (source.withTopLevel ids) id start = resolveTop source id start := by
  simp only [resolveTop, entry_withTopLevel, resolve_withTopLevel]

theorem surveyFrom_withTopLevel (rest : List EntryId) (start : Progress) :
    surveyFrom (source.withTopLevel ids) rest start = surveyFrom source rest start := by
  induction rest generalizing start with
  | nil => rfl
  | cons id rest ih => simp only [surveyFrom, resolveTop_withTopLevel, ih]

theorem survey_withTopLevel : survey (source.withTopLevel ids) = surveyFrom source ids {} :=
  surveyFrom_withTopLevel source ids ids {}

/-! ## Lists behind one another -/

variable {source}

section

variable {id : EntryId} {start p : Progress} {r : Resolution}

theorem surveyFrom_of_none (h : resolveTop source id start = (none, p)) (rest : List EntryId) :
    surveyFrom source (id :: rest) start = surveyFrom source rest p := by
  rw [surveyFrom, h]

theorem surveyFrom_of_failed (h : resolveTop source id start = (some r, p))
    (hr : r.failure.isSome) (rest : List EntryId) :
    surveyFrom source (id :: rest) start = ⟨[r], p.bindings.length⟩ := by
  simp only [surveyFrom, h, hr, if_true]

theorem surveyFrom_of_resolved (h : resolveTop source id start = (some r, p))
    (hr : r.failure = none) (rest : List EntryId) :
    (surveyFrom source (id :: rest) start).resolutions =
      r :: (surveyFrom source rest p).resolutions := by
  simp [surveyFrom, h, hr]

end

/-- What stands behind the entry that fails is not looked at. -/
theorem surveyFrom_append_of_failure {before : List EntryId} {start : Progress}
    (fails : failureOf (surveyFrom source before start).resolutions ≠ none)
    (after : List EntryId) :
    (surveyFrom source (before ++ after) start).resolutions =
      (surveyFrom source before start).resolutions := by
  induction before generalizing start with
  | nil => exact absurd rfl fails
  | cons id rest ih =>
    rw [List.cons_append]
    rcases htop : resolveTop source id start with ⟨_ | r, p⟩
    · rw [surveyFrom_of_none htop] at fails
      rw [surveyFrom_of_none htop, surveyFrom_of_none htop]
      exact ih fails
    · cases hr : r.failure with
      | some e =>
        have hsome : r.failure.isSome := by rw [hr]; rfl
        rw [surveyFrom_of_failed htop hsome, surveyFrom_of_failed htop hsome]
      | none =>
        rw [surveyFrom_of_resolved htop hr] at fails
        rw [surveyFrom_of_resolved htop hr, surveyFrom_of_resolved htop hr, ih]
        simpa [failureOf, hr] using fails

/-- Behind entries that all resolve, the others are walked on from where these ended. -/
theorem surveyFrom_append_of_well {before : List EntryId} {start : Progress}
    (well : failureOf (surveyFrom source before start).resolutions = none) :
    ∃ p, ∀ after, (surveyFrom source (before ++ after) start).resolutions =
      (surveyFrom source before start).resolutions ++ (surveyFrom source after p).resolutions := by
  induction before generalizing start with
  | nil => exact ⟨start, fun _ => rfl⟩
  | cons id rest ih =>
    rcases htop : resolveTop source id start with ⟨_ | r, p⟩
    · rw [surveyFrom_of_none htop] at well
      obtain ⟨q, hq⟩ := ih well
      refine ⟨q, fun after => ?_⟩
      rw [List.cons_append, surveyFrom_of_none htop, surveyFrom_of_none htop, hq]
    · have hr : r.failure = none := resolveTop_unfailing well (by rw [htop])
      rw [surveyFrom_of_resolved htop hr] at well
      obtain ⟨q, hq⟩ := ih (by simpa [failureOf, hr] using well)
      refine ⟨q, fun after => ?_⟩
      rw [List.cons_append, surveyFrom_of_resolved htop hr, surveyFrom_of_resolved htop hr, hq]
      rfl

end Survey

end LayoutGraph
