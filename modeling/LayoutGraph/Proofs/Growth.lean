-- A pass only appends. Whatever calls of it go wrong and however it ends, the
-- rows that were there stay where they are, the new ones are numbered behind
-- them, and each reference of a new row names a row that is there.
import Mathlib.Logic.Relation
import LayoutGraph.Proofs.Absorb
import LayoutGraph.Proofs.Merging
import LayoutGraph.Proofs.Recorder.Struck
import LayoutGraph.Proofs.Store.Sound

namespace LayoutGraph

open Chain Recording

/-! ## Closed graphs -/

namespace Graph

/-- The references of the rows name rows of the graph. -/
structure ClosedIn (g rows : Graph) : Prop where
  origins : ∀ s ∈ rows.symbols, ∃ o ∈ g.origins, o.id = s.origin
  owners : ∀ f ∈ rows.fields, ∃ s ∈ g.symbols, s.id = f.owner
  types : ∀ f ∈ rows.fields, ∃ s ∈ g.symbols, s.id = f.type
  enumerators : ∀ e ∈ rows.enumerators, ∃ s ∈ g.symbols, s.id = e.symbol

/-- The references of a graph name its own rows. -/
def Closed (g : Graph) : Prop := g.ClosedIn g

variable {g a b : Graph}

theorem closedIn_empty (g : Graph) : g.ClosedIn {} where
  origins _ h := absurd h List.not_mem_nil
  owners _ h := absurd h List.not_mem_nil
  types _ h := absurd h List.not_mem_nil
  enumerators _ h := absurd h List.not_mem_nil

theorem ClosedIn.append (ha : g.ClosedIn a) (hb : g.ClosedIn b) : g.ClosedIn (a ++ b) where
  origins s hs := (List.mem_append.mp hs).elim (ha.origins s) (hb.origins s)
  owners f hf := (List.mem_append.mp hf).elim (ha.owners f) (hb.owners f)
  types f hf := (List.mem_append.mp hf).elim (ha.types f) (hb.types f)
  enumerators e he := (List.mem_append.mp he).elim (ha.enumerators e) (hb.enumerators e)

/-- What names a row goes on naming it when more rows come. -/
theorem ClosedIn.extend (h : g.ClosedIn a) (more : Graph) : (g ++ more).ClosedIn a where
  origins s hs :=
    (h.origins s hs).imp fun _ ho => ⟨List.mem_append_left more.origins ho.1, ho.2⟩
  owners f hf :=
    (h.owners f hf).imp fun _ hs => ⟨List.mem_append_left more.symbols hs.1, hs.2⟩
  types f hf :=
    (h.types f hf).imp fun _ hs => ⟨List.mem_append_left more.symbols hs.1, hs.2⟩
  enumerators e he :=
    (h.enumerators e he).imp fun _ hs => ⟨List.mem_append_left more.symbols hs.1, hs.2⟩

/-- A graph that is closed stays so when the new rows refer to old ones or to new ones. -/
theorem Closed.grow (h : a.Closed) {added : Graph} (hb : b = a ++ added)
    (new : b.ClosedIn added) : b.Closed := by
  subst hb
  exact (h.extend added).append new

theorem append_empty (g : Graph) : g ++ ({} : Graph) = g := by
  simp only [append_def, List.append_nil]

theorem append_assoc (a b c : Graph) : a ++ b ++ c = a ++ (b ++ c) := by
  simp only [append_def, List.append_assoc]

end Graph

namespace Memory

variable {m n : Memory}

/-! ## One insert -/

/-- One insert of a pass. The rows that the new row refers to are named by their keys. -/
inductive Insert : Memory → Memory → Prop
  | origin (m : Memory) (name : String) (littleEndian : Bool) :
    Insert m (m.insertOrigin name littleEndian).2
  | symbol {m : Memory} {row : NewSymbol} {origin : String} :
    m.Names (.origin origin row.origin) → Insert m (m.insertSymbol row).2
  | field {m : Memory} {row : NewField} {owner type : SymbolKey} :
    m.Names (.symbol owner row.owner) → m.Names (.symbol type row.type) →
    Insert m (m.insertField row).2
  | list (m : Memory) : Insert m { m with lists := ⟨m.lists.last + 1⟩ }
  | dimension (m : Memory) (list : ListId) (order extent : Nat) :
    Insert m (m.insertDimension list order extent).2
  | enumerator {m : Memory} {symbol : SymbolId} {owner : SymbolKey} (name : String) (value : Int) :
    m.Names (.symbol owner symbol) → Insert m (m.insertEnumerator symbol name value).2

theorem Insert.sound (h : Insert m n) (hm : m.Sound) : n.Sound := by
  cases h with
  | origin name littleEndian => exact hm.insertOrigin name littleEndian
  | symbol _ => exact hm.insertSymbol _
  | field _ _ => exact hm.insertField _
  | list => exact hm.allocateList
  | dimension list order extent => exact hm.insertDimension list order extent
  | enumerator name value _ => exact hm.insertEnumerator _ name value

theorem Insert.names (h : Insert m n) {held : Holding} (hm : m.Names held) : n.Names held := by
  cases h with
  | origin name littleEndian =>
    exact names_lasts (.insertOrigin name littleEndian) rfl hm
  | @symbol row _ _ => exact names_lasts (.insertSymbol row) rfl hm
  | @field row _ _ _ _ => exact names_lasts (.insertField row) rfl hm
  | list => cases held <;> exact hm
  | dimension list order extent =>
    exact names_lasts (.insertDimension list order extent) rfl hm
  | @enumerator symbol _ name value _ =>
    exact names_lasts (.insertEnumerator symbol name value) rfl hm

/-- The graph gains rows behind those that it has, and they refer to these. -/
def Appends (m n : Memory) : Prop :=
  ∃ added, n.graph = m.graph ++ added ∧ m.graph.ClosedIn added

theorem appends_of_same (h : n.graph = m.graph) : Appends m n :=
  ⟨{}, h.trans (Graph.append_empty _).symm, Graph.closedIn_empty _⟩

theorem Insert.appends (h : Insert m n) (hm : m.Sound) : Appends m n := by
  cases h with
  | origin name littleEndian =>
    unfold insertOrigin
    split
    · exact appends_of_same rfl
    · exact ⟨{ origins := [⟨⟨nextId m.graph.origins⟩, name, littleEndian⟩] },
        by simp only [Graph.append_def, List.append_nil], { m.graph.closedIn_empty with }⟩
  | @symbol row _ horigin =>
    unfold insertSymbol
    split
    · exact appends_of_same rfl
    · refine ⟨{ symbols := [row.withId ⟨nextId m.graph.symbols⟩] },
        by simp only [Graph.append_def, List.append_nil],
        { m.graph.closedIn_empty with origins := fun s hs => ?_ }⟩
      rw [List.mem_singleton.mp hs]
      exact hm.origin_mem horigin
  | @field row _ _ howner htype =>
    unfold insertField
    split
    · exact appends_of_same rfl
    · refine ⟨{ fields := [row.withId ⟨nextId m.graph.fields⟩] },
        by simp only [Graph.append_def, List.append_nil],
        { m.graph.closedIn_empty with owners := fun f hf => ?_, types := fun f hf => ?_ }⟩
      · rw [List.mem_singleton.mp hf]
        exact hm.symbol_mem howner
      · rw [List.mem_singleton.mp hf]
        exact hm.symbol_mem htype
  | list => exact appends_of_same rfl
  | dimension list order extent =>
    unfold insertDimension
    split
    · exact appends_of_same rfl
    · exact ⟨{ dimensions := [⟨⟨nextId m.graph.dimensions⟩, list, order, extent⟩] },
        by simp only [Graph.append_def, List.append_nil], { m.graph.closedIn_empty with }⟩
  | @enumerator symbol _ name value howner =>
    unfold insertEnumerator
    split
    · exact appends_of_same rfl
    · refine ⟨{ enumerators := [⟨⟨nextId m.graph.enumerators⟩, symbol, name, value⟩] },
        by simp only [Graph.append_def, List.append_nil],
        { m.graph.closedIn_empty with enumerators := fun e he => ?_ }⟩
      rw [List.mem_singleton.mp he]
      exact hm.symbol_mem howner

/-! ## Inserts in a row -/

def Grows : Memory → Memory → Prop := Relation.ReflTransGen Insert

theorem Grows.refl (m : Memory) : Grows m m := Relation.ReflTransGen.refl

theorem Grows.of_eq (h : n = m) : Grows m n := h ▸ refl m

theorem Grows.trans {k : Memory} (h : Grows m n) (h' : Grows n k) : Grows m k :=
  Relation.ReflTransGen.trans h h'

theorem Insert.grows (h : Insert m n) : Grows m n := .single h

theorem Grows.sound (h : Grows m n) (hm : m.Sound) : n.Sound := by
  induction h with
  | refl => exact hm
  | tail _ hinsert ih => exact hinsert.sound ih

theorem Grows.names (h : Grows m n) {held : Holding} (hm : m.Names held) : n.Names held := by
  induction h with
  | refl => exact hm
  | tail _ hinsert ih => exact hinsert.names ih

/-- New rows may refer to old rows and to new ones. -/
theorem Grows.added (h : Grows m n) (hm : m.Sound) :
    ∃ added, n.graph = m.graph ++ added ∧ n.graph.ClosedIn added := by
  induction h with
  | refl => exact ⟨{}, (Graph.append_empty _).symm, Graph.closedIn_empty _⟩
  | tail hgrows hinsert ih =>
    obtain ⟨before, hbefore, hclosed⟩ := ih
    obtain ⟨last, hlast, hnew⟩ := hinsert.appends (Grows.sound hgrows hm)
    refine ⟨before ++ last, ?_, ?_⟩
    · rw [hlast, hbefore, Graph.append_assoc]
    · rw [hlast]
      exact (hclosed.extend last).append (hnew.extend last)

end Memory

/-! ## Runs along which the rows grow -/

variable {σ α β : Type} [Store σ] [Unreliable σ]

/-- The rows grow along the run, however it ends. Where it ends well the memo still names rows, and
the result is as `Q` says. -/
def GrowsTo (Q : α → Recorder σ → Prop) (x : Recording σ α) (r : Recorder σ) : Prop :=
  Ends (fun a t => Recalls t ∧ r.memory.Grows t.memory ∧ Q a t)
    (fun _ t => r.memory.Grows t.memory) (x r)

theorem GrowsTo.bind {x : Recording σ α} {f : α → Recording σ β} {r : Recorder σ}
    {Q : α → Recorder σ → Prop} {Q' : β → Recorder σ → Prop} (hx : GrowsTo Q x r)
    (hf : ∀ a t, Recalls t → r.memory.Grows t.memory → Q a t → GrowsTo Q' (f a) t) :
    GrowsTo Q' (x >>= f) r := by
  refine ends_bind (hx.mono (fun a t h => ?_) fun _ _ h => h)
  obtain ⟨ht, hgrows, hq⟩ := h
  exact (hf a t ht hgrows hq).mono (fun b u h => ⟨h.1, hgrows.trans h.2.1, h.2.2⟩)
    fun _ u h => hgrows.trans h

theorem growsTo_pure {r : Recorder σ} {Q : α → Recorder σ → Prop} {a : α} (hr : Recalls r)
    (h : Q a r) : GrowsTo Q (pure a) r := ⟨hr, .refl _, h⟩

theorem growsTo_throw {r : Recorder σ} {Q : α → Recorder σ → Prop} (e : Failure) :
    GrowsTo Q (throw e) r := .refl _

theorem growsTo_note {r : Recorder σ} (hr : Recalls r) (event : Log.Event) :
    GrowsTo (fun _ _ => True) (note event) r := ⟨hr.congr rfl rfl rfl, .refl _, trivial⟩

/-! ### Rows -/

variable {r : Recorder σ} {setting : Setting} {origin : String}

theorem symbol_grows (hr : Recalls r) {row : NewSymbol}
    (horigin : r.memory.Names (.origin origin row.origin)) :
    GrowsTo (fun inserted t => t.memory.Names (.symbol row.key inserted.id)) (symbol row) r := by
  refine (symbol_struck hr row).mono (fun inserted t h => ?_) fun _ _ h => .of_eq h
  obtain ⟨ht, hid, hplain⟩ := h
  refine ⟨ht, ?_, hid⟩
  rw [show t.memory = _ from congrArg Prod.snd hplain]
  exact (Memory.Insert.symbol horigin).grows

theorem symbolId_grows (hr : Recalls r) (horigin : r.memory.Names (.origin origin setting.origin))
    (key : SymbolKey) :
    GrowsTo (fun id t => t.memory.Names (.symbol key id)) (symbolId setting key) r := by
  refine (symbolId_struck hr setting key).mono (fun id t h => ?_) fun _ _ h => .of_eq h
  obtain ⟨ht, hid, hplain⟩ := h
  refine ⟨ht, ?_, hid⟩
  rw [hplain]
  exact (Memory.Insert.symbol horigin).grows

theorem field_grows (hr : Recalls r) {row : NewField} {owner type : SymbolKey}
    (howner : r.memory.Names (.symbol owner row.owner))
    (htype : r.memory.Names (.symbol type row.type)) :
    GrowsTo (fun _ _ => True) (field row) r := by
  refine (field_struck hr row).mono (fun inserted t h => ?_) fun _ _ h => .of_eq h
  refine ⟨h.1, ?_, trivial⟩
  rw [show t.memory = _ from congrArg Prod.snd h.2]
  exact (Memory.Insert.field howner htype).grows

theorem enumerator_grows (hr : Recalls r) {owner : SymbolKey} {symbol : SymbolId}
    (howner : r.memory.Names (.symbol owner symbol)) (name : String) (value : Int) :
    GrowsTo (fun _ _ => True) (enumerator symbol name value) r := by
  refine (enumerator_struck hr symbol name value).mono (fun _ t h => ?_) fun _ _ h => .of_eq h
  refine ⟨h.1, ?_, trivial⟩
  rcases h.2 with h | ⟨-, h⟩ <;> rw [h]
  · exact (Memory.Insert.enumerator name value howner).grows
  · exact .refl _

theorem listFor_grows (hr : Recalls r) (extents : List Nat) :
    GrowsTo (fun _ _ => True) (listFor extents) r := by
  refine (listFor_struck hr extents).mono (fun list t h => ?_) fun _ _ h => .of_eq h
  refine ⟨h.1, ?_, trivial⟩
  have hmemory := h.2
  split at hmemory <;> rw [hmemory.2]
  · exact .refl _
  · exact (Memory.Insert.list _).grows

theorem writeDimensions_grows (hr : Recalls r) (list : ListId) (extents : List Nat) :
    GrowsTo (fun _ _ => True) (writeDimensions list extents) r := by
  unfold writeDimensions
  generalize extents.zipIdx = axes
  induction axes generalizing r with
  | nil => exact growsTo_pure hr trivial
  | cons axis rest ih =>
    refine GrowsTo.bind (Q := fun _ _ => True) (.bind (Q := fun _ _ => True) ?_ ?_) ?_
    · refine (ask_served _ rfl r).mono (fun id t h => ?_) fun _ _ h => .of_eq h.2.1
      obtain ⟨hmemo, hanswer⟩ := h
      refine ⟨hr.answer hanswer (congrArg _ hmemo) (congrArg _ hmemo), ?_, trivial⟩
      rw [eq_snd_of_ok hanswer]
      exact (Memory.Insert.dimension _ list axis.2 axis.1).grows
    · exact fun _ t ht _ _ => growsTo_pure ht trivial
    · exact fun _ t ht _ _ => ih ht

/-! ### Steps -/

theorem writeField_grows (hr : Recalls r)
    (horigin : r.memory.Names (.origin origin setting.origin)) (step : Survey.FieldStep) :
    GrowsTo (fun _ _ => True) (writeField setting step) r := by
  unfold writeField
  refine (symbolId_grows hr horigin step.owner).bind fun owner r1 h1 g1 howner => ?_
  refine (symbolId_grows h1 (g1.names horigin) step.type).bind fun type r2 h2 g2 htype => ?_
  refine (listFor_grows h2 step.extents).bind fun dimensions r3 h3 g3 _ => ?_
  refine (field_grows h3 (g3.names (g2.names howner)) (g3.names htype)).bind
    fun inserted r4 h4 _ _ => ?_
  split
  · exact writeDimensions_grows h4 _ _
  · exact growsTo_pure h4 trivial

theorem writeStep_grows (hr : Recalls r)
    (horigin : r.memory.Names (.origin origin setting.origin)) (step : Survey.Step) :
    GrowsTo (fun _ _ => True) (writeStep setting step) r := by
  cases step with
  | visit entry name => exact growsTo_note hr _
  | symbol key =>
    exact (symbol_grows hr horigin).bind fun _ t ht _ _ => growsTo_pure ht trivial
  | field step => exact writeField_grows hr horigin step
  | enumerator key constant =>
    exact (symbolId_grows hr horigin key).bind fun id t ht _ hid => enumerator_grows ht hid _ _

theorem writeSteps_grows (hr : Recalls r)
    (horigin : r.memory.Names (.origin origin setting.origin)) (steps : List Survey.Step) :
    GrowsTo (fun _ _ => True) (writeSteps setting steps) r := by
  unfold writeSteps
  induction steps generalizing r with
  | nil => exact growsTo_pure hr trivial
  | cons step rest ih =>
    exact (writeStep_grows hr horigin step).bind fun _ t ht hgrows _ => ih ht (hgrows.names horigin)

theorem writeResolution_grows (hr : Recalls r)
    (horigin : r.memory.Names (.origin origin setting.origin)) (one : Survey.Resolution) :
    GrowsTo (fun _ _ => True) (Pass.writeResolution setting one) r := by
  unfold Pass.writeResolution
  refine (writeSteps_grows hr horigin one.steps.toList).bind fun _ t ht _ _ => ?_
  split
  · exact growsTo_throw _
  · exact growsTo_pure ht trivial

/-- A resolution that fails leaves its rows, and the resolutions end there. -/
theorem writeResolutions_grows (name : String) (setting : Setting) (hr : Recalls r)
    (horigin : r.memory.Names (.origin origin setting.origin)) (rs : List Survey.Resolution) :
    Ends (fun _ t => r.memory.Grows t.memory) (fun _ t => r.memory.Grows t.memory)
      (Pass.writeResolutions name setting rs r) := by
  induction rs generalizing r with
  | nil => exact .refl _
  | cons one rest ih =>
    have h : GrowsTo _ _ _ := writeResolution_grows hr horigin one
    unfold GrowsTo at h
    unfold Pass.writeResolutions
    split <;> rename_i heq <;> rw [heq] at h
    · obtain ⟨ht, hgrows, -⟩ := h
      exact (ih ht (hgrows.names horigin)).mono (fun _ _ h => hgrows.trans h)
        fun _ _ h => hgrows.trans h
    · split <;> exact h

/-! ## Passes -/

/-- A request that reads leaves the rows as they are. -/
theorem commit_grows (r : Recorder σ) :
    Ends (fun _ t => r.memory.Grows t.memory) (fun _ t => r.memory.Grows t.memory)
      (ask .commit r) := by
  refine (ask_served _ rfl r).mono (fun _ t h => ?_) fun _ _ h => .of_eq h.2.1
  rw [eq_snd_of_ok h.2]
  exact .refl _

theorem write_grows (source : Source) (hr : Recalls r) :
    Ends (fun _ t => r.memory.Grows t.memory) (fun _ t => r.memory.Grows t.memory)
      (Pass.write source r) := by
  unfold Pass.write
  refine ends_bind ((origin_struck hr source.origin source.littleEndian).mono (fun id r1 h => ?_)
    fun _ _ h => .of_eq h)
  obtain ⟨h1, hid, hmemory⟩ := h
  have g1 : r.memory.Grows r1.memory := by
    rw [hmemory]
    exact (Memory.Insert.origin _ _ _).grows
  let walking : Log.Event := .walking source.topLevel.length source.littleEndian
  have hnote : note walking r1 = .ok () (r1.withLog (r1.log.push walking)) := rfl
  have h2 : Recalls (r1.withLog (r1.log.push walking)) := h1.congr rfl rfl rfl
  have g2 := writeResolutions_grows source.origin ⟨id, source.littleEndian⟩ h2 hid
    (Survey.survey source).resolutions
  rw [bind_of_ok hnote]
  refine ends_bind (g2.mono (fun failure r3 g3 => ?_) fun _ _ g3 => g1.trans g3)
  refine ends_bind ((commit_grows r3).mono (fun _ t g4 => ?_) fun _ _ g4 => g1.trans (g3.trans g4))
  cases failure <;> exact g1.trans (g3.trans g4)

theorem parse_grows (source : Source) (s : σ) :
    (Unreliable.memory s).Grows (Unreliable.memory (Session.parse source s).2) := by
  rw [Session.parse_store]
  exact (write_grows source (recalls_start s)).left

theorem Memory.steady_reached : Steady Memory.Reached where
  serve _ _ h := left_ofStep h fun _ _ hanswer => .serve h hanswer

/-- Whatever source is parsed into a store that came about by requests, whichever of its calls are
struck by faults and however the pass ends: the rows that were there stay in place in front, and the
new rows refer to rows that are there. Ids are the places of the rows, and no natural key has two
rows. So a graph whose references name its rows stays such a graph. -/
theorem a_pass_only_appends_and_keeps_the_graph_closed (source : Source) (s : σ)
    (reached : (Unreliable.memory s).Reached) :
    let before := (Unreliable.memory s).graph
    let after := (Unreliable.memory (Session.parse source s).2).graph
    (∃ added, after = before ++ added ∧ after.ClosedIn added) ∧ after.Numbered ∧ after.KeysOnce ∧
      (before.Closed → after.Closed) := by
  intro before after
  have grows := parse_grows source s
  have sound := grows.sound reached.sound
  obtain ⟨added, hafter, hnew⟩ := grows.added reached.sound
  exact ⟨⟨added, hafter, hnew⟩, sound.numbered, sound.keysOnce,
    fun closed => closed.grow hafter hnew⟩

/-- Calls that are struck by a fault of each mode. -/
def stormy : Nat → Method → Option FaultMode
  | 0, _ => some .miss
  | 3, _ => some .collide
  | 11, _ => some .conflict
  | 13, _ => some .error
  | _, _ => none

/-- Behind the rows of a point, a pass over the ring is struck until it fails. -/
theorem a_struck_pass_appends_to_the_rows_of_a_point :
    let store := (Session.parse (point "a.o" 0 ⟨2⟩) ({} : Memory)).2
    let s : Scheduled stormy := { memory := store }
    let after := (Session.parse ring s).2.memory.graph
    store.Reached ∧ store.graph.Closed ∧ Session.outcome ring s = some .storeError ∧
      after ≠ store.graph ∧ (∃ added, after = store.graph ++ added ∧ after.ClosedIn added) ∧
      after.Numbered ∧ after.KeysOnce ∧ after.Closed := by
  intro store s after
  have reached : store.Reached := Memory.steady_reached.parse _ .empty
  have first :=
    a_pass_only_appends_and_keeps_the_graph_closed (point "a.o" 0 ⟨2⟩) ({} : Memory) .empty
  have closed : store.graph.Closed := first.2.2.2 (Graph.closedIn_empty _)
  obtain ⟨added, numbered, keysOnce, stays⟩ :=
    a_pass_only_appends_and_keeps_the_graph_closed ring s reached
  exact ⟨reached, closed, by decide +kernel, by decide +kernel, added, numbered, keysOnce,
    stays closed⟩

end LayoutGraph
