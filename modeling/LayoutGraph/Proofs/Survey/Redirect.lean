-- Surveys of two sources of which the second refers at once to what answers
-- for the references of the first. They are one survey, but for the ids that
-- are looked at.
import LayoutGraph.Image
import LayoutGraph.Proofs.Survey.Follow
import LayoutGraph.Proofs.Survey.Prefix
import LayoutGraph.Proofs.Survey.Reference

namespace LayoutGraph

open Chain

/-! ## References that point elsewhere -/

section

variable (aim : EntryId → EntryId)

def Member.redirect (m : Member) : Member := { m with type := aim m.type }

def EntryKind.redirect : EntryKind → EntryKind
  | .base => .base
  | .compound kind members declaration =>
    .compound kind (members.map (Member.redirect aim)) declaration
  | .enumeration constants => .enumeration constants
  | .array element extents => .array (aim element) extents
  | .pointer target => .pointer (target.map aim)
  | .typedef target => .typedef (target.map aim)
  | .qualified target => .qualified (target.map aim)

/-- The entry with its references pointed elsewhere. It keeps its own id. -/
def Entry.redirect (e : Entry) : Entry := { e with kind := e.kind.redirect aim }

namespace Survey

def Goal.redirect (goal : Goal) : Goal := { goal with entry := aim goal.entry }

def Shape.redirect (shape : Shape) : Shape :=
  { shape with goal := shape.goal.map (Goal.redirect aim) }

def Resolution.redirect (r : Resolution) : Resolution :=
  ⟨aim r.entry, r.steps.map (Step.redirect aim), r.failure.map (Failure.redirect aim)⟩

end Survey

variable {aim} {e : Entry}

@[simp] theorem Entry.awaitsName_redirect : (e.redirect aim).awaitsName = e.awaitsName := by
  unfold awaitsName redirect
  cases e.kind <;> rfl

@[simp] theorem Entry.definitionKind?_redirect :
    (e.redirect aim).definitionKind? = e.definitionKind? := by
  unfold definitionKind? redirect
  cases e.kind <;> rfl

@[simp] theorem Entry.isDeclaration_redirect :
    (e.redirect aim).isDeclaration = e.isDeclaration := by
  unfold isDeclaration redirect
  cases e.kind <;> rfl

end

/-- The references of `b` are those of `a`, pointed by `aim` at the entries that answer for them.
Only a struct, union or enumeration is answered by an entry with another id. -/
structure Source.Redirects (aim : EntryId → EntryId) (a b : Source) : Prop where
  origin : b.origin = a.origin
  littleEndian : b.littleEndian = a.littleEndian
  topLevel : b.topLevel = a.topLevel.map aim
  find? : ∀ id, b.find? (aim id) = (a.find? id).map (Entry.redirect aim)
  found : ∀ id e, a.find? id = some e → aim id = e.id ∧ aim e.id = e.id
  lost : ∀ id, a.find? id = none → aim id = id
  own : ∀ id e, a.find? id = some e → e.definitionKind? = none → e.id = id

namespace Survey

variable {aim : EntryId → EntryId} {β : Type} {p : Progress}

/-! ## Results without a state -/

theorem unnamed_redirect (e : Entry) :
    unnamed (p.redirect aim) (e.redirect aim) = unnamed p e := by
  unfold unnamed
  rw [Entry.awaitsName_redirect]
  rfl

theorem filter_unnamed_redirect (behind : Option Entry) :
    (behind.map (Entry.redirect aim)).filter (unnamed (p.redirect aim)) =
      (behind.filter (unnamed p)).map (Entry.redirect aim) := by
  cases behind with
  | none => rfl
  | some e =>
    simp only [Option.map_some, Option.filter_some, unnamed_redirect]
    split <;> rfl

theorem redirected_foldlM {γ δ : Type} {point : γ → δ} {f : β → γ → Except Failure β}
    {g : β → δ → Except Failure β}
    (h : ∀ b c, g b (point c) = redirected aim (fun b => b) (f b c)) (cs : List γ) (start : β) :
    (cs.map point).foldlM g start = redirected aim (fun b => b) (cs.foldlM f start) := by
  induction cs generalizing start with
  | nil => rfl
  | cons c rest ih =>
    rw [List.map_cons, List.foldlM_cons, List.foldlM_cons, h start c]
    cases f start c with
    | ok b => exact ih b
    | error e => rfl

theorem Strips.found {source : Source} {id : EntryId} {e : Entry}
    (h : Strips source id (some e)) : ∃ other, source.find? other = some e := by
  generalize hbehind : some e = behind at h
  induction h with
  | stop hfind =>
    cases hbehind
    exact ⟨_, hfind⟩
  | skip _ _ _ ih => exact ih hbehind
  | void => cases hbehind

end Survey

namespace Source.Redirects

open Survey

variable {aim : EntryId → EntryId} {a b : Source} (h : Source.Redirects aim a b)
include h

theorem entry (id : EntryId) :
    b.entry (aim id) = redirected aim (Entry.redirect aim) (a.entry id) := by
  unfold Source.entry
  rw [h.find? id]
  cases a.find? id <;> rfl

theorem unqualified (room : Nat) (id : EntryId) :
    Survey.unqualified b room (aim id) =
      redirected aim (Option.map (Entry.redirect aim)) (Survey.unqualified a room id) := by
  induction room generalizing id with
  | zero => rfl
  | succ room ih =>
    unfold Survey.unqualified
    rw [h.entry id]
    cases a.entry id with
    | error e => rfl
    | ok e =>
      simp only [redirected, bind, Except.bind, Entry.redirect]
      cases hkind : e.kind with
      | qualified target =>
        cases target with
        | some target => exact ih target
        | none => rfl
      | _ => simp [EntryKind.redirect, pure, Except.pure, Entry.redirect, hkind]

theorem aliased (room : Nat) (target : Option EntryId) :
    aliased b room (target.map aim) =
      redirected aim (Option.map (Entry.redirect aim)) (aliased a room target) := by
  cases target with
  | none => rfl
  | some target => exact h.unqualified room target

theorem shapeFrom (room : Nat) (crossed : Shape) (id : EntryId) :
    shapeFrom b room (crossed.redirect aim) (aim id) =
      redirected aim (Shape.redirect aim) (shapeFrom a room crossed id) := by
  induction room generalizing crossed id with
  | zero => rfl
  | succ room ih =>
    unfold Survey.shapeFrom
    rw [h.entry id]
    cases a.entry id with
    | error e => rfl
    | ok e =>
      simp only [redirected, bind, Except.bind, Entry.redirect]
      cases hkind : e.kind with
      | qualified target =>
        cases target with
        | some target => exact ih crossed target
        | none => rfl
      | array element extents =>
        simp only [EntryKind.redirect]
        show (if crossed.pointerDepth = 0 then _ else _) = redirected aim _ _
        split
        · exact ih { crossed with extents := crossed.extents ++ extents } element
        · rfl
      | pointer target =>
        cases target with
        | some target =>
          exact ih { crossed with pointerDepth := crossed.pointerDepth + 1 } target
        | none => rfl
      | _ => rfl

theorem shapeOf (room : Nat) (type : EntryId) :
    shapeOf b room (aim type) = redirected aim (Shape.redirect aim) (shapeOf a room type) :=
  h.shapeFrom room {} type

theorem sizeOf (room : Nat) (id : EntryId) :
    sizeOf b room (aim id) = redirected aim (fun size => size) (sizeOf a room id) := by
  induction room generalizing id with
  | zero => rfl
  | succ room ih =>
    unfold Survey.sizeOf
    rw [h.entry id]
    cases a.entry id with
    | error e => rfl
    | ok e =>
      simp only [redirected, bind, Except.bind, Entry.redirect]
      cases e.byteSize with
      | some size => rfl
      | none =>
        cases hkind : e.kind with
        | compound kind members declaration =>
          apply redirected_foldlM
          intro extent m
          dsimp only [Member.redirect]
          cases m.bitSize with
          | some bits => rfl
          | none =>
            simp only [ih]
            cases Survey.sizeOf a room m.type <;> rfl
        | array element extents =>
          simp only [EntryKind.redirect, ih]
          cases Survey.sizeOf a room element <;> rfl
        | typedef target | qualified target =>
          cases target with
          | some target => exact ih target
          | none => rfl
        | _ => rfl

/-! ## Walks -/

theorem emitMembers {room : Nat}
    {f g : (left : Nat) → left ≤ room → EntryId → Walk SymbolKey}
    (next : ∀ left hle id, Follows aim (f left hle id) (g left hle (aim id)))
    (owner : SymbolKey) (members : List Member) :
    Follows aim (emitMembers a room f owner members)
      (emitMembers b room g owner (members.map (Member.redirect aim))) := by
  unfold Survey.emitMembers
  rw [List.zipIdx_map]
  refine follows_forM (fun c => ?_) _
  obtain ⟨m, place⟩ := c
  have hshape := h.shapeOf room m.type
  dsimp only [Prod.map]
  -- The goal of a shape comes with a bound on its room, so the two shapes are split apart.
  split <;> rename_i here hhere <;> rw [hhere] at hshape
  · split <;> rename_i there hthere
    · cases hthere.symm.trans hshape
      exact follows_throw here
    · cases hthere.symm.trans hshape
  · have hgoal : (here.redirect aim).goal = here.goal.map (Goal.redirect aim) := rfl
    split
    · rename_i goal hhere
      rw [hhere] at hgoal
      split <;> rename_i there hthere <;> cases hthere.symm.trans hshape
      split <;> rename_i hthere <;> cases hthere.symm.trans hgoal
      exact (next _ _ _).bind fun _ => follows_emit _
    · rename_i hhere
      rw [hhere] at hgoal
      split <;> rename_i there hthere <;> cases hthere.symm.trans hshape
      split <;> rename_i hthere <;> cases hthere.symm.trans hgoal
      exact follows_voidSymbol.bind fun _ => follows_emit _

/-- What an alias names has an id that answers for itself. -/
theorem own_aliased {room : Nat} {target : Option EntryId} {e : Entry}
    (ha : Survey.aliased a room target = .ok (some e)) : aim e.id = e.id := by
  cases target with
  | none => cases ha
  | some target =>
    obtain ⟨id, hfind⟩ := (strips_of_unqualified ha).found
    exact (h.found id e hfind).2

/-- What answers under another id was found. -/
theorem elsewhere {id : EntryId} (hne : aim id ≠ id) :
    ∃ e, a.find? id = some e ∧ e.id ≠ id := by
  cases hfind : a.find? id with
  | none => exact absurd (h.lost id hfind) hne
  | some e => exact ⟨e, rfl, (h.found id e hfind).1 ▸ hne⟩

theorem resolve (room : Nat) (id : EntryId) (name? : Option String) :
    Follows aim (resolve a room id name?) (resolve b room (aim id) name?) := by
  induction room using Nat.strongRecOn generalizing id name? with
  | ind room ih =>
    unfold Survey.resolve
    cases room with
    | zero => exact follows_throw (tooDeep id)
    | succ room =>
      have next := ih room (Nat.lt_succ_self room)
      have walked : ∀ room' ≤ room, ∀ owner members,
          Follows aim
            (Survey.emitMembers a room' (fun left _ target => Survey.resolve a left target none)
              owner members)
            (Survey.emitMembers b room' (fun left _ target => Survey.resolve b left target none)
              owner (members.map (Member.redirect aim))) :=
        fun room' hle owner members => h.emitMembers
          (fun left hleft target => ih left (by omega) target none) owner members
      intro start settled
      apply followsAt_get_bind
      dsimp only
      have sameBound : (start.redirect aim).symbol? (aim id) = start.symbol? (aim id) := rfl
      rw [sameBound]
      cases hbound : start.symbol? id with
      | some key =>
        rw [settled id (by rw [hbound]; rfl), hbound]
        exact follows_pure key start settled
      | none =>
        cases hanswer : start.symbol? (aim id) with
        | some key =>
          -- The definition is bound already: the first walk learns it only from the entry.
          have hmoved : aim id ≠ id := by
            intro heq
            rw [heq, hbound] at hanswer
            cases hanswer
          obtain ⟨e, hfind, hne⟩ := h.elsewhere hmoved
          have hbe : boundElsewhere? start id e = some key :=
            (if_neg hne).trans ((h.found id e hfind).1 ▸ hanswer)
          refine FollowsAt.of_pureMove (entry_eq_ok.mpr hfind) ?_
          rw [hbe]
          exact follows_pure key start settled
        | none =>
          refine follows_pureMove_bind (h.entry id) (fun e he => ?_) settled
          obtain ⟨hid, hown⟩ := h.found id e (entry_eq_ok.mp he)
          have habsent : start.symbol? e.id = none := hid ▸ hanswer
          have hbe : boundElsewhere? start id e = none := by
            unfold boundElsewhere?
            rw [habsent]
            exact ite_self none
          have hbe' : boundElsewhere? (start.redirect aim) (aim id) (e.redirect aim) = none :=
            if_pos hid.symm
          rw [hbe, hbe']
          refine (follows_emit (.visit id e.shownName) start settled).bind fun _ => ?_
          have hkinds : (e.redirect aim).kind = e.kind.redirect aim := rfl
          rw [hkinds]
          have unmoved (hkind : e.definitionKind? = none) : aim id = id :=
            hid.trans (h.own id e (entry_eq_ok.mp he) hkind)
          have hsize := h.sizeOf (room + 1) e.id
          rw [hown] at hsize
          cases hkind : e.kind with
          | base =>
            have hsame := unmoved (by simp [Entry.definitionKind?, hkind])
            rw [hsame]
            exact (follows_intern _ _).completed hsame
          | compound kind members declaration =>
            intro p hp
            refine follows_pureMove_bind hsize (fun byteSize _ => ?_) hp
            refine FollowsAt.bind (follows_intern _ _ p hp) fun key => ?_
            refine (follows_reserve hown key).bind fun _ => ?_
            refine (walked room (Nat.le_refl _) key members).bind fun _ => ?_
            exact (follows_complete hown key).bind fun _ => follows_pure key
          | enumeration constants =>
            refine (follows_intern _ _).bind fun key => ?_
            refine (follows_emitConstants key constants).bind fun _ => ?_
            exact (follows_complete hown key).bind fun _ => follows_pure key
          | array element extents =>
            have hsame := unmoved (by simp [Entry.definitionKind?, hkind])
            rw [hsame]
            exact (next element none).completed hsame
          | pointer target =>
            have hsame := unmoved (by simp [Entry.definitionKind?, hkind])
            rw [hsame]
            cases target with
            | some target => exact (next target none).completed hsame
            | none => exact follows_voidSymbol.completed hsame
          | qualified target =>
            cases target with
            | some target => exact next target name?
            | none => exact follows_voidSymbol
          | typedef target =>
            intro p hp
            refine follows_pureMove_bind (h.aliased room target) (fun behind hbehind => ?_) hp
            rw [filter_unnamed_redirect]
            cases hfilter : behind.filter (unnamed start) with
            | some bare =>
              obtain ⟨rfl, -⟩ := Option.filter_eq_some_iff.mp hfilter
              have hname := next bare.id (some e.shownName)
              rw [h.own_aliased hbehind] at hname
              exact hname.completed hown p hp
            | none =>
              refine follows_pureMove_bind hsize (fun byteSize _ => ?_) hp
              refine FollowsAt.bind (follows_intern _ _ p hp) fun key => ?_
              refine (follows_reserve hown key).bind fun _ => ?_
              cases target with
              | none =>
                cases hbehind
                exact (follows_complete hown key).bind fun _ => follows_pure key
              | some target =>
                refine (next target none).bind fun _ => ?_
                have closed : Follows aim (do complete e.id key; return key)
                    (do complete e.id key; return key) :=
                  (follows_complete hown key).bind fun _ => follows_pure key
                cases behind with
                | none => exact closed
                | some b =>
                  simp only [Option.map_some, Entry.redirect]
                  cases b.kind with
                  | compound kind members declaration =>
                    exact (walked (room - 1) (by omega) key members).bind fun _ => closed
                  | enumeration constants =>
                    exact (follows_emitConstants key constants).bind fun _ => closed
                  | _ => exact closed

/-! ## Surveys -/

theorem resolveTop {start : Progress} (settled : start.Settled aim) (id : EntryId) :
    Survey.resolveTop b (aim id) (start.redirect aim) =
        ((Survey.resolveTop a id start).1.map (Resolution.redirect aim),
          (Survey.resolveTop a id start).2.redirect aim) ∧
      (Survey.resolveTop a id start).2.Settled aim := by
  unfold Survey.resolveTop
  rw [h.entry id]
  cases a.entry id with
  | error e => exact ⟨by simp [redirected, Resolution.redirect], settled⟩
  | ok e =>
    simp only [redirected, Entry.awaitsName_redirect]
    split
    · exact ⟨rfl, settled⟩
    · obtain ⟨hends, hsettled⟩ := h.resolve fullRoom id none { start with steps := #[] } settled
      have hstart : { start.redirect aim with steps := #[] } =
          ({ start with steps := #[] } : Progress).redirect aim := by simp [Progress.redirect]
      rw [hstart, hends]
      cases hresolve : Survey.resolve a fullRoom id none { start with steps := #[] } with
      | ok key p =>
        rw [hresolve] at hsettled
        exact ⟨rfl, hsettled⟩
      | error e p =>
        rw [hresolve] at hsettled
        exact ⟨rfl, hsettled⟩

theorem surveyFrom {start : Progress} (settled : start.Settled aim) (ids : List EntryId) :
    (Survey.surveyFrom b (ids.map aim) (start.redirect aim)).resolutions =
      (Survey.surveyFrom a ids start).resolutions.map (Resolution.redirect aim) := by
  induction ids generalizing start with
  | nil => rfl
  | cons id rest ih =>
    obtain ⟨htop, hsettled⟩ := h.resolveTop settled id
    rcases hone : Survey.resolveTop a id start with ⟨_ | r, p⟩ <;> rw [hone] at htop hsettled
    · rw [List.map_cons, surveyFrom_of_none htop, surveyFrom_of_none hone]
      exact ih hsettled
    · rw [List.map_cons]
      cases hr : r.failure with
      | some e =>
        have hfailed : (r.redirect aim).failure.isSome := by
          rw [Resolution.redirect, hr]
          rfl
        rw [surveyFrom_of_failed htop hfailed, surveyFrom_of_failed hone (by rw [hr]; rfl)]
        rfl
      | none =>
        have hwell : (r.redirect aim).failure = none := by
          rw [Resolution.redirect, hr]
          rfl
        rw [surveyFrom_of_resolved htop hwell, surveyFrom_of_resolved hone hr, ih hsettled]
        rfl

theorem survey : (Survey.survey b).resolutions =
    (Survey.survey a).resolutions.map (Resolution.redirect aim) := by
  have settled : ({} : Progress).Settled aim := fun _ hbound => by cases hbound
  have hstart : ({} : Progress) = Progress.redirect aim {} := by simp [Progress.redirect]
  unfold Survey.survey
  rw [h.topLevel]
  conv_lhs => rw [hstart]
  exact h.surveyFrom settled a.topLevel

theorem steps : b.steps = a.steps.map (Step.redirect aim) := by
  unfold Source.steps stepsOf
  rw [h.survey]
  simp [List.flatMap_map, List.map_flatMap, Resolution.redirect]

theorem failure? : b.failure? = a.failure?.map (Failure.redirect aim) := by
  unfold Source.failure? failureOf
  rw [h.survey, List.findSome?_map, List.map_findSome?]
  rfl

end Source.Redirects

end LayoutGraph
