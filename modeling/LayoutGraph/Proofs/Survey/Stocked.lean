-- What a survey has written of a compound that has its name. It is bound as
-- complete only behind its symbol and a field of each member, and no typedef
-- gives it another name, so this holds in sources where other entries wait
-- for theirs.
import LayoutGraph.Proofs.Survey.Grounded
import LayoutGraph.Proofs.Survey.InTurn

namespace LayoutGraph

/-- A struct or union that waits for no name and has the members. -/
structure Entry.HasMembers (e : Entry) (members : List Member) : Prop where
  named : e.awaitsName = false
  kind : ∃ kind declaration, e.kind = .compound kind members declaration

namespace Survey

variable {source : Source} {before : List Step} {p q : Progress} {id : EntryId} {e : Entry}

/-! ## The invariant -/

/-- The symbol is the entry's own, and it is written with a field for each of the members. -/
structure Stocked (source : Source) (before : List Step) (p : Progress) (e : Entry)
    (members : List Member) (key : SymbolKey) : Prop where
  own : OwnKey source e key
  symbol : Wrote before p (.symbol key)
  fields : ∀ member ∈ members.zipIdx, HasField before p key member.1 member.2

theorem Stocked.mono {after : List Step} (later : Later before p after q) {members : List Member}
    {key : SymbolKey} (h : Stocked source before p e members key) :
    Stocked source after q e members key where
  own := h.own
  symbol := later.wrote _ h.symbol
  fields member hmember := (h.fields member hmember).mono later

/-- What is bound as complete and is a compound with a name is stocked. -/
def Stocks (source : Source) (before : List Step) (p : Progress) : Prop :=
  ∀ id key, p.bindings.lookup id = some ⟨key, true⟩ → ∀ e members, source.find? id = some e →
    e.HasMembers members → Stocked source before p e members key

namespace Stocks

theorem congr (h : Stocks source before p) (bindings : q.bindings = p.bindings)
    (later : Later before p before q) : Stocks source before q := by
  intro id key hid e members hfind hmembers
  rw [bindings] at hid
  exact (h id key hid e members hfind hmembers).mono later

theorem push (h : Stocks source before p) (s : Step) : Stocks source before (p.push s) :=
  h.congr rfl (Extends.push p s).later

theorem pushConstants (h : Stocks source before p) (key : SymbolKey) (constants : List Constant) :
    Stocks source before (p.pushConstants key constants) :=
  h.congr (bindings_pushConstants p key constants).1 (Extends.pushConstants p key constants).later

theorem withVoid (h : Stocks source before p) : Stocks source before p.withVoid :=
  h.congr (bindings_withVoid p) (Extends.withVoid p).later

/-- An id may be bound, as complete if the compound that it names is stocked. -/
theorem bind (h : Stocks source before p) {b : Binding} (hstocked : b.complete = true →
      ∀ e members, source.find? id = some e → e.HasMembers members →
        Stocked source before p e members b.symbol) :
    Stocks source before (p.bind id b) := by
  intro other key hother e members hfind hmembers
  have later : Later before p before (p.bind id b) := (Extends.bind p id b).later
  rw [Progress.lookup_bind] at hother
  split at hother
  · rename_i heq
    cases hother
    exact (hstocked rfl e members (heq ▸ hfind) hmembers).mono later
  · exact (h other key hother e members hfind hmembers).mono later

/-- An entry of another kind may be bound to anything. -/
theorem bindOther (h : Stocks source before p) {b : Binding} (hfind : source.find? id = some e)
    (hkind : ∀ kind members declaration, e.kind ≠ .compound kind members declaration) :
    Stocks source before (p.bind id b) := by
  refine h.bind fun _ other members hother hmembers => ?_
  cases hfind.symm.trans hother
  obtain ⟨kind, declaration, hcompound⟩ := hmembers.kind
  exact absurd hcompound (hkind kind members declaration)

theorem enter (h : Stocks source before p) (id : EntryId) (e : Entry) (key : SymbolKey) :
    Stocks source before (p.enter id e key) :=
  ((h.push _).push _).bind nofun

end Stocks

/-! ## Tasks -/

/-- Only an entry that waits for a name is given one. -/
def Task.Sparing (source : Source) : Task → Prop
  | .entry id name? => ∀ e, source.find? id = some e → e.awaitsName = false → name? = none
  | .members .. | .content .. => True

theorem sparing_none (source : Source) (id : EntryId) : (Task.entry id none).Sparing source :=
  fun _ _ _ => rfl

/-- A task with members brings about their fields. -/
def Task.Stocked (before : List Step) (q : Progress) : Task → Prop
  | .members owner rest => ∀ member ∈ rest, HasField before q owner member.1 member.2
  | .entry .. | .content .. => True

/-! ## Walks -/

/-- The first of the members has its field, and those behind it come by theirs. -/
theorem stocked_member {owner type : SymbolKey} {m : Member} {place : Nat} {extents : List Nat}
    {pointers : Nat} {rest : List (Member × Nat)} {r : Progress}
    (later : Extends (q.push (.field (memberStep owner m place type extents pointers))) r)
    (hrest : (Task.members owner rest).Stocked before r) :
    (Task.members owner ((m, place) :: rest)).Stocked before r := by
  intro member hmember
  rcases List.mem_cons.mp hmember with rfl | hmember
  · exact ⟨_, later.wrote (wrote_push.mpr (.inr rfl)), rfl, rfl⟩
  · exact hrest member hmember

theorem Walks.stocks (coherent : source.Coherent) {task : Task} {key : SymbolKey}
    (h : Walks source task p key q) : task.Sparing source → Stocks source before p →
      Stocks source before q ∧ task.Stocked before q := by
  induction h with
  | bound => exact fun _ hp => ⟨hp, trivial⟩
  | elsewhere => exact fun _ hp => ⟨hp, trivial⟩
  | base fresh hkind =>
    exact fun _ hp => ⟨((hp.push _).push _).bindOther fresh.found (by simp [hkind]), trivial⟩
  | @compound id name? e p q key kind members declaration fresh hkind hname hsize hwalks ih =>
    intro sparing hp
    obtain ⟨hq, hfields⟩ := ih trivial (hp.enter id e key)
    refine ⟨hq.bind fun _ other ms hother hmembers => ?_, trivial⟩
    cases (coherent _ _ fresh.found).symm.trans hother
    obtain ⟨kind', declaration', hkind'⟩ := hmembers.kind
    cases hkind.symm.trans hkind'
    cases sparing e fresh.found hmembers.named
    have hown : OwnKey source e key := by simpa [OwnKey, hkind] using And.intro hname hsize
    have hwrote : Wrote before (p.enter id e key) (.symbol key) := wrote_push.mpr (.inr rfl)
    exact ⟨hown, hwalks.extends.wrote hwrote, hfields⟩
  | enumeration fresh hkind =>
    intro _ hp
    refine ⟨?_, trivial⟩
    exact (((hp.push _).push _).pushConstants _ _).bindOther (coherent _ _ fresh.found)
      (by simp [hkind])
  | array fresh hkind _ ih =>
    intro _ hp
    obtain ⟨hq, -⟩ := ih (sparing_none _ _) (hp.push _)
    exact ⟨hq.bindOther fresh.found (by simp [hkind]), trivial⟩
  | pointer fresh hkind _ ih =>
    intro _ hp
    obtain ⟨hq, -⟩ := ih (sparing_none _ _) (hp.push _)
    exact ⟨hq.bindOther fresh.found (by simp [hkind]), trivial⟩
  | pointerVoid fresh hkind =>
    exact fun _ hp => ⟨(hp.push _).withVoid.bindOther fresh.found (by simp [hkind]), trivial⟩
  | qualified fresh hkind _ ih =>
    intro sparing hp
    cases sparing _ fresh.found (by simp [Entry.awaitsName, hkind])
    exact ⟨(ih (sparing_none _ _) (hp.push _)).1, trivial⟩
  | qualifiedVoid => exact fun _ hp => ⟨(hp.push _).withVoid, trivial⟩
  | @naming id target name? e bare p q key fresh hkind hstrips hunnamed _ ih =>
    intro _ hp
    have sparing : (Task.entry bare.id (some e.shownName)).Sparing source := by
      intro other hother hnot
      cases (found_of_strips coherent hstrips rfl).symm.trans hother
      simp [unnamed, hnot] at hunnamed
    obtain ⟨hq, -⟩ := ih sparing (hp.push _)
    exact ⟨hq.bindOther (coherent _ _ fresh.found) (by simp [hkind]), trivial⟩
  | typedef fresh hkind _ _ _ _ _ _ ihtarget ih =>
    intro _ hp
    obtain ⟨hm, -⟩ := ihtarget (sparing_none _ _) (hp.enter _ _ _)
    obtain ⟨hq, -⟩ := ih trivial hm
    exact ⟨hq.bindOther (coherent _ _ fresh.found) (by simp [hkind]), trivial⟩
  | typedefVoid fresh hkind =>
    intro _ hp
    exact ⟨(hp.enter _ _ _).bindOther (coherent _ _ fresh.found) (by simp [hkind]), trivial⟩
  | done => exact fun _ hp => ⟨hp, List.forall_mem_nil _⟩
  | member _ _ hrest ihgoal ih =>
    intro _ hp
    obtain ⟨hq, -⟩ := ihgoal (sparing_none _ _) hp
    obtain ⟨hr, hfields⟩ := ih trivial (hq.push _)
    exact ⟨hr, stocked_member hrest.extends hfields⟩
  | memberVoid _ hrest ih =>
    intro _ hp
    obtain ⟨hr, hfields⟩ := ih trivial (hp.withVoid.push _)
    exact ⟨hr, stocked_member hrest.extends hfields⟩
  | lentMembers _ _ ih => exact fun _ hp => ⟨(ih trivial hp).1, trivial⟩
  | lentConstants => exact fun _ hp => ⟨hp.pushConstants _ _, trivial⟩
  | nothing => exact fun _ hp => ⟨hp, trivial⟩

/-! ## Surveys -/

theorem stocks_empty (source : Source) : Stocks source [] {} := fun _ _ h => by cases h

theorem Stocks.restart (h : Stocks source before p) :
    Stocks source (before ++ p.steps.toList) { p with steps := #[] } := by
  intro id key hid e members hfind hmembers
  exact (h id key hid e members hfind hmembers).mono (later_restart before p)

/-- A compound is handled where it is bound, under the id that was asked for or under its own. -/
theorem bound_of_handled (coherent : source.Coherent) {members : List Member}
    (hfind : source.find? id = some e) (hmembers : e.HasMembers members)
    (h : Handled source p id) : ∃ under, source.find? under = some e ∧
      (p.symbol? under).isSome := by
  cases h with
  | bound hbound => exact ⟨id, hfind, hbound⟩
  | elsewhere hother hbound =>
    cases hfind.symm.trans hother
    exact ⟨e.id, coherent _ _ hfind, hbound⟩
  | wraps hother hwraps =>
    cases hfind.symm.trans hother
    obtain ⟨kind, declaration, hkind⟩ := hmembers.kind
    cases hwraps <;> simp_all

/-- A survey that goes well writes all of each listed compound with a name. -/
theorem stocked_of_survey (coherent : source.Coherent) (hok : source.failure? = none)
    {members : List Member} (listed : id ∈ source.topLevel) (hfind : source.find? id = some e)
    (hmembers : e.HasMembers members) : ∃ key, OwnKey source e key ∧
      .symbol key ∈ source.steps ∧ ∀ member ∈ members.zipIdx, HasRow source.steps key member := by
  obtain ⟨last, hsteps, hstocks, -, hdone, -, hlisted⟩ :=
    surveyFrom_grounded coherent (Stocks source) (fun _ _ h => h.restart)
      (fun _ _ id _ _ hwalks h => (hwalks.stocks coherent (sparing_none source id) h).1)
      source.topLevel [] (grounded_empty source) (stocks_empty source) rfl hok
  obtain ⟨other, hother, hhandled⟩ := hlisted id listed
  cases hfind.symm.trans hother
  obtain ⟨under, hunder, hbound⟩ :=
    bound_of_handled coherent hfind hmembers (hhandled hmembers.named)
  unfold Progress.symbol? at hbound
  rw [Option.isSome_map] at hbound
  obtain ⟨⟨key, complete⟩, hlookup⟩ := Option.isSome_iff_exists.mp hbound
  cases Progress.complete_of_pending hlookup (by simp [hdone])
  have stocked := hstocks under key hlookup e members hunder hmembers
  refine ⟨key, stocked.own, (wrote_of_no_steps hsteps).mp stocked.symbol, fun member hmember => ?_⟩
  obtain ⟨step, hstep, howner, hname⟩ := stocked.fields member hmember
  exact ⟨step, (wrote_of_no_steps hsteps).mp hstep, howner, hname⟩

end Survey

end LayoutGraph
