-- The law of forward declarations: a pass over an image leaves what it leaves
-- where every reference to a declaration is one to its definition, and the
-- declaration is gone.
import LayoutGraph.Proofs.Passing
import LayoutGraph.Proofs.Recorder.SideBySide
import LayoutGraph.Proofs.Source.Coherent
import LayoutGraph.Proofs.Survey.Redirect

namespace LayoutGraph

open Chain Recording

variable {aim : EntryId → EntryId}

/-! ## Passes over redirected sources -/

theorem writeSteps_redirect {σ τ : Type} [Store σ] [Unreliable σ] [Store τ]
    [Unreliable τ] (here : Mild σ) (there : Mild τ) (setting : Setting)
    (steps : List Survey.Step) :
    SideBySide (writeSteps setting steps : Recording σ Unit)
      (writeSteps setting (steps.map (Survey.Step.redirect aim)) : Recording τ Unit) := by
  induction steps with
  | nil => exact SideBySide.pure PUnit.unit
  | cons step rest ih =>
    have hstep : SideBySide (writeStep setting step : Recording σ Unit)
        (writeStep setting (step.redirect aim) : Recording τ Unit) := by
      cases step with
      | visit id name => exact SideBySide.note _ _
      | symbol key => exact SideBySide.writeStep here there setting (.symbol key)
      | field step => exact SideBySide.writeStep here there setting (.field step)
      | enumerator key constant =>
        exact SideBySide.writeStep here there setting (.enumerator key constant)
    exact hstep.bind fun _ => ih

/-- The ids that a walk looks at go to the log alone. -/
theorem parse_redirects {a b : Source} (h : Source.Redirects aim a b) {m : Memory}
    (ok : Session.outcome a m = some .ok) :
    Session.outcome b m = some .ok ∧ (Session.parse b m).2 = (Session.parse a m).2 := by
  obtain ⟨t, hwrite, hstore⟩ := Session.outcome_eq_ok ok
  obtain ⟨hwell, origin, r, log, u, horigin, hsteps, hstores, -⟩ := Pass.write_ok hwrite
  let walking : Log.Event := .walking b.topLevel.length b.littleEndian
  have sideBySide : SideBySide (writeSteps ⟨origin, a.littleEndian⟩ a.steps)
      (writeSteps ⟨origin, a.littleEndian⟩ (a.steps.map (Survey.Step.redirect aim))) :=
    writeSteps_redirect mild_memory mild_memory ⟨origin, a.littleEndian⟩ a.steps
  have halike := sideBySide (r.withLog log) (r.withLog (r.log.push walking)) rfl
  rw [hsteps, ← h.steps, ← h.littleEndian] at halike
  obtain ⟨v, hv, hsight⟩ := onState_eq_ok.mp halike.symm
  rw [← h.origin, ← h.littleEndian] at horigin
  have hfailure : b.failure? = none := by
    rw [h.failure?, hwell]
    rfl
  obtain ⟨log', hb⟩ := Pass.write_of_steps (fun e he => by rw [hfailure] at he; cases he)
    horigin hv
  rw [hfailure] at hb
  have hparse := Session.parse_of_ok hb
  refine ⟨?_, ?_⟩
  · unfold Session.outcome
    rw [hparse]
    rfl
  · rw [hparse, hstore, hstores]
    exact congrArg Sight.memory hsight

namespace Image

variable {image : Image}

/-! ## Images -/

/-- The id of the definition, for the id of a declaration that has one; any other id is kept. -/
def redirect (image : Image) (id : EntryId) : EntryId :=
  match image.decoded? id with
  | some e => (image.answer e).id
  | none => id

/-- The image in which definitions stand for declarations, wherever one is referred to or listed. -/
def redirected (image : Image) : Image :=
  { image with
    entries := image.entries.map (Entry.redirect image.redirect)
    topLevel := image.topLevel.map image.redirect }

/-- The image without the declarations that have a definition. -/
def defined (image : Image) : Image :=
  { image with entries := image.entries.filter fun e => image.answer e = e }

/-! ## Look-ups -/

theorem decoded?_redirected (id : EntryId) :
    image.redirected.decoded? id = (image.decoded? id).map (Entry.redirect image.redirect) :=
  List.find?_map

theorem lower_map (f : Entry → Entry) (hf : ∀ e, (f e).id = e.id) (entries : List Entry)
    (best : Option Entry) :
    (entries.map f).foldl lower (best.map f) = (entries.foldl lower best).map f := by
  induction entries generalizing best with
  | nil => rfl
  | cons e rest ih =>
    have hlower : lower (best.map f) (f e) = (lower best e).map f := by
      cases best with
      | none => rfl
      | some b =>
        simp only [lower, Option.map_some, hf]
        split <;> rfl
    rw [List.map_cons, List.foldl_cons, List.foldl_cons, hlower, ih]

theorem definition?_redirected (kind : DefinitionKind) (name : String) :
    image.redirected.definition? kind name =
      (image.definition? kind name).map (Entry.redirect image.redirect) := by
  have hdefines : Entry.defines kind name ∘ Entry.redirect image.redirect =
      Entry.defines kind name := by
    funext e
    simp only [Function.comp_apply, Entry.defines, Entry.definitionKind?_redirect,
      Entry.isDeclaration_redirect]
    rfl
  unfold definition?
  show ((image.entries.map _).filter _).foldl lower none = _
  rw [List.filter_map, hdefines]
  exact lower_map (Entry.redirect image.redirect) (fun _ => rfl) _ none

theorem answer_redirected (e : Entry) :
    image.redirected.answer (e.redirect image.redirect) =
      (image.answer e).redirect image.redirect := by
  unfold answer
  have hname : (e.redirect image.redirect).name = e.name := rfl
  rw [Entry.definitionKind?_redirect, Entry.isDeclaration_redirect, hname]
  rcases e.isDeclaration with _ | _ <;> rcases e.definitionKind? with _ | kind <;>
    rcases e.name with _ | name <;> try rfl
  dsimp only
  rw [definition?_redirected]
  cases image.definition? kind name <;> rfl

theorem definitionKind?_answer (e : Entry) :
    (image.answer e).definitionKind? = e.definitionKind? := by
  unfold answer
  split
  · rename_i kind name _ hkind _
    cases hdefinition : image.definition? kind name with
    | none => rfl
    | some d => exact (definition?_eq_some hdefinition).2.1.trans hkind.symm
  · rfl

/-- What answers for an id is an entry of the image, and no declaration of what it defines. -/
theorem find?_eq_some {id : EntryId} {e : Entry} (h : image.find? id = some e) :
    e ∈ image.entries ∧ image.answer e = e := by
  obtain ⟨d, hd, rfl⟩ := Option.map_eq_some_iff.mp h
  rcases image.answer_cases d with hself | hanswer
  · rw [hself]
    exact ⟨List.mem_of_find?_eq_some hd, hself⟩
  · exact hanswer

theorem redirect_of_find? {id : EntryId} {e : Entry} (h : image.find? id = some e) :
    image.redirect id = e.id := by
  obtain ⟨d, hd, rfl⟩ := Option.map_eq_some_iff.mp h
  unfold redirect
  rw [hd]

theorem redirect_of_none {id : EntryId} (h : image.find? id = none) : image.redirect id = id := by
  unfold redirect
  rw [Option.map_eq_none_iff.mp h]

/-- An entry of no kind that can be declared answers for itself. -/
theorem own_id {id : EntryId} {e : Entry} (h : image.find? id = some e)
    (hkind : e.definitionKind? = none) : e.id = id := by
  obtain ⟨d, hd, rfl⟩ := Option.map_eq_some_iff.mp h
  rw [definitionKind?_answer] at hkind
  have hself : image.answer d = d := by
    unfold answer
    rw [hkind]
    split
    · contradiction
    · rfl
  rw [hself]
  simpa using List.find?_some hd

theorem find?_redirected (id : EntryId) :
    image.redirected.find? id = (image.find? id).map (Entry.redirect image.redirect) := by
  unfold find?
  rw [decoded?_redirected, Option.map_map, Option.map_map]
  congr 1
  funext e
  exact answer_redirected e

/-- An entry that answers for itself is found under its id. -/
theorem find?_of_mem (once : (image.entries.map Entry.id).Nodup) {e : Entry}
    (h : e ∈ image.entries) (hself : image.answer e = e) : image.find? e.id = some e := by
  unfold find?
  rw [decoded?_of_mem once h, Option.map_some, hself]

/-- No declaration was a definition, so all definitions are still there. -/
theorem answer_defined (e : Entry) : image.defined.answer e = image.answer e := by
  have hsame : ∀ kind name, image.defined.definition? kind name = image.definition? kind name := by
    intro kind name
    unfold definition? defined
    rw [List.filter_filter]
    congr 1
    apply List.filter_congr
    intro d _
    cases hdefines : Entry.defines kind name d with
    | false => rfl
    | true =>
      obtain ⟨-, -, -, hdefinition⟩ := Entry.defines_iff.mp hdefines
      simp [image.answer_of_not_declaration hdefinition]
  unfold answer
  simp only [hsame]

theorem find?_defined (once : (image.entries.map Entry.id).Nodup) {e : Entry}
    (h : e ∈ image.entries) (hself : image.answer e = e) : image.defined.find? e.id = some e :=
  find?_of_mem (once.sublist (List.filter_sublist.map Entry.id))
    (List.mem_filter.mpr ⟨h, decide_eq_true hself⟩) ((answer_defined e).trans hself)

theorem find?_defined_of_none {id : EntryId} (h : image.find? id = none) :
    image.defined.find? id = none := by
  have hnone : image.decoded? id = none := Option.map_eq_none_iff.mp h
  refine Option.map_eq_none_iff.mpr (List.find?_eq_none.mpr fun e he => ?_)
  exact List.find?_eq_none.mp hnone e (List.mem_of_mem_filter he)

/-! ## The law -/

/-- The references of an image are redirected in every source that lists as the redirected image
does, finds its entries, and finds no others. -/
theorem redirects_of_find? (once : (image.entries.map Entry.id).Nodup) {other : Image}
    (origin : other.origin = image.origin) (littleEndian : other.littleEndian = image.littleEndian)
    (topLevel : other.topLevel = image.topLevel.map image.redirect)
    (found : ∀ e ∈ image.entries, image.answer e = e →
      other.find? e.id = some (e.redirect image.redirect))
    (lost : ∀ id, image.find? id = none → other.find? id = none) :
    Source.Redirects image.redirect image.toSource other.toSource where
  origin := origin
  littleEndian := littleEndian
  topLevel := topLevel
  find? id := by
    show other.find? _ = (image.find? id).map _
    cases h : image.find? id with
    | none =>
      rw [redirect_of_none h]
      exact lost id h
    | some e =>
      rw [redirect_of_find? h]
      exact found e (find?_eq_some h).1 (find?_eq_some h).2
  found id e h := ⟨redirect_of_find? h, redirect_of_find? (coherent_toSource once id e h)⟩
  lost id h := redirect_of_none h
  own id e h hkind := own_id h hkind

/-- A pass over an image that ends well leaves the store that it leaves where all references to
declarations, and all listings of declarations, are those of their definitions. There, declarations
with a definition yield nothing: without them the pass leaves the same store. -/
theorem forward_declarations_are_transparent (image : Image)
    (once : (image.entries.map Entry.id).Nodup) (m : Memory)
    (ok : Session.outcome image.toSource m = some .ok) :
    (Session.outcome image.redirected.toSource m = some .ok ∧
      (Session.parse image.redirected.toSource m).2 = (Session.parse image.toSource m).2) ∧
    Session.outcome image.redirected.defined.toSource m = some .ok ∧
      (Session.parse image.redirected.defined.toSource m).2 =
        (Session.parse image.toSource m).2 := by
  have found : ∀ e ∈ image.entries, image.answer e = e →
      image.redirected.find? e.id = some (e.redirect image.redirect) := by
    intro e he hself
    rw [find?_redirected, find?_of_mem once he hself, Option.map_some]
  have lost : ∀ id, image.find? id = none → image.redirected.find? id = none := by
    intro id hnone
    rw [find?_redirected, hnone, Option.map_none]
  have once' : (image.redirected.entries.map Entry.id).Nodup := by
    unfold redirected
    rw [List.map_map]
    exact once
  have here : Source.Redirects image.redirect image.toSource image.redirected.toSource :=
    redirects_of_find? once rfl rfl rfl found lost
  have there : Source.Redirects image.redirect image.toSource image.redirected.defined.toSource :=
    redirects_of_find? once rfl rfl rfl
      (fun e he hself => find?_defined once' (List.mem_map_of_mem he)
        ((answer_redirected e).trans (congrArg _ hself)))
      fun id hnone => find?_defined_of_none (lost id hnone)
  exact ⟨parse_redirects here ok, parse_redirects there ok⟩

/-- A struct whose declaration stands before it: a typedef names the declaration, and so does the
pointer in the struct. -/
def linked : Image where
  origin := "list.o"
  littleEndian := true
  entries := [
    ⟨⟨1⟩, some "int", some 4, .base⟩,
    ⟨⟨2⟩, some "Node", none, .compound .struct [] true⟩,
    ⟨⟨3⟩, none, none, .pointer (some ⟨2⟩)⟩,
    ⟨⟨4⟩, some "Node", some 16, .compound .struct
      [⟨some "value", 0, ⟨1⟩, none, none⟩, ⟨some "next", 8, ⟨3⟩, none, none⟩] false⟩,
    ⟨⟨5⟩, some "node_t", none, .typedef (some ⟨2⟩)⟩]
  topLevel := [⟨2⟩, ⟨5⟩, ⟨4⟩]

/-- The declaration of the struct can go: of the three symbols it yields none. -/
theorem a_linked_struct_needs_no_declaration :
    (linked.entries.map Entry.id).Nodup ∧ linked.redirect ⟨2⟩ = ⟨4⟩ ∧
      (linked.redirected.defined.entries.map Entry.id) = [⟨1⟩, ⟨3⟩, ⟨4⟩, ⟨5⟩] ∧
      Session.outcome linked.toSource ({} : Memory) = some .ok ∧
      (Session.parse linked.toSource ({} : Memory)).2.graph.symbols.length = 3 ∧
      (Session.parse linked.redirected.defined.toSource ({} : Memory)).2 =
        (Session.parse linked.toSource ({} : Memory)).2 := by
  have once : (linked.entries.map Entry.id).Nodup := by decide
  have ok : Session.outcome linked.toSource ({} : Memory) = some .ok := by decide +kernel
  obtain ⟨-, -, hstore⟩ := forward_declarations_are_transparent linked once {} ok
  exact ⟨once, by decide +kernel, by decide +kernel, ok, by decide +kernel, hstore⟩

end Image

end LayoutGraph
