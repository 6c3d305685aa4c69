-- One program on a store in memory and on a database that mirrors it. Both
-- runs end with the same result, memo and log, and the database mirrors the
-- memory again, as long as the numbers that the program writes fit.
import LayoutGraph.Proofs.Recorder.Agreement
import LayoutGraph.Proofs.Store.Mirror

namespace LayoutGraph

open Chain Recording
open Database (columnEnd)

/-! ## Runs in step -/

/-- A store in memory and a database that mirrors it. -/
inductive AnyStore.Pair : AnyStore → AnyStore → Prop
  | of {m : Memory} {db : Database} : Mirrors m db → Pair (.memory m) (.database db)

/-- Recorders on such stores with one memo and one log. -/
inductive Twins : Recorder AnyStore → Recorder AnyStore → Prop
  | of {s s' : AnyStore} (pair : s.Pair s') (memo : Memo) (log : Array Log.Event) :
    Twins ⟨s, memo, log⟩ ⟨s', memo, log⟩

theorem Twins.stores {r t : Recorder AnyStore} (h : Twins r t) : r.store.Pair t.store := by
  obtain ⟨pair, -, -⟩ := h
  exact pair

theorem Twins.memo {r t : Recorder AnyStore} (h : Twins r t) : t.memo = r.memo := by
  obtain ⟨-, -, -⟩ := h
  rfl

/-- Two runs end with the same result, and a good result is as `Q` says. -/
inductive InStep {α : Type} (Q : α → Recorder AnyStore → Prop) :
    EStateM.Result Failure (Recorder AnyStore) α → EStateM.Result Failure (Recorder AnyStore) α →
      Prop
  | ok {a : α} {r t : Recorder AnyStore} : Twins r t → Q a r → InStep Q (.ok a r) (.ok a t)
  | error {e : Failure} {r t : Recorder AnyStore} : Twins r t → InStep Q (.error e r) (.error e t)

/-- Work that does not ask the stores is in step where it is so on any memo and log. -/
theorem Twins.apart {α : Type} {Q : α → Recorder AnyStore → Prop} {x : Recording AnyStore α}
    {r t : Recorder AnyStore} (h : Twins r t)
    (same : ∀ {s s' : AnyStore}, s.Pair s' → ∀ memo log,
      InStep Q (x ⟨s, memo, log⟩) (x ⟨s', memo, log⟩)) :
    InStep Q (x r) (x t) := by
  obtain ⟨pair, memo, log⟩ := h
  exact same pair memo log

/-- The program runs in step from both recorders. Where it ends well the memo still names rows, no
row is lost, and the result is as `Q` says. -/
def Together {α : Type} (Q : α → Recorder AnyStore → Prop) (x : Recording AnyStore α)
    (r t : Recorder AnyStore) : Prop :=
  InStep (fun a u => Agrees u ∧ Outlasts r.store u.store ∧ Q a u) (x r) (x t)

variable {α β : Type} {r t : Recorder AnyStore} {Q : α → Recorder AnyStore → Prop}
  {Q' : β → Recorder AnyStore → Prop}

theorem InStep.bind {x : Recording AnyStore α} {f : α → Recording AnyStore β}
    (h : InStep Q (x r) (x t)) (next : ∀ a u v, Twins u v → Q a u → InStep Q' (f a u) (f a v)) :
    InStep Q' ((x >>= f) r) ((x >>= f) t) := by
  generalize hr : x r = a at h
  generalize ht : x t = b at h
  cases h with
  | ok twins q =>
    rw [bind_of_ok hr, bind_of_ok ht]
    exact next _ _ _ twins q
  | error twins =>
    rw [bind_of_error hr, bind_of_error ht]
    exact .error twins

theorem InStep.mono {x y : EStateM.Result Failure (Recorder AnyStore) α}
    {P : α → Recorder AnyStore → Prop} (h : InStep Q x y) (imp : ∀ a u, Q a u → P a u) :
    InStep P x y := by
  cases h with
  | ok twins q => exact .ok twins (imp _ _ q)
  | error twins => exact .error twins

/-- What is seen of the ends of both runs is the same, and the database mirrors the memory. -/
theorem InStep.seen {x y : EStateM.Result Failure (Recorder AnyStore) α} (h : InStep Q x y) :
    onState (fun u => (u.memo, u.log)) x = onState (fun u => (u.memo, u.log)) y ∧
      (left x).store.Pair (left y).store := by
  cases h with
  | ok twins _ =>
    obtain ⟨pair, _, _⟩ := twins
    exact ⟨rfl, pair⟩
  | error twins =>
    obtain ⟨pair, _, _⟩ := twins
    exact ⟨rfl, pair⟩

namespace Together

theorem bind {x : Recording AnyStore α} {f : α → Recording AnyStore β} (hx : Together Q x r t)
    (next : ∀ a u v, Twins u v → Agrees u → Outlasts r.store u.store → Q a u →
      Together Q' (f a) u v) : Together Q' (x >>= f) r t := by
  refine InStep.bind hx fun a u v twins h => ?_
  obtain ⟨hu, lasts, q⟩ := h
  exact (next a u v twins hu lasts q).mono fun b w h => ⟨h.1, lasts.trans h.2.1, h.2.2⟩

theorem mono {x : Recording AnyStore α} {P : α → Recorder AnyStore → Prop} (h : Together Q x r t)
    (imp : ∀ a u, Q a u → P a u) : Together P x r t :=
  InStep.mono h fun a u h => ⟨h.1, h.2.1, imp a u h.2.2⟩

/-- Runs in step, with what the one run in memory is known to do. -/
theorem of_inStep {x : Recording AnyStore α} (h : InStep (fun _ _ => True) (x r) (x t))
    (keeps : ∀ held, Keeps (InStore fun s => Holds s held) x)
    (good : ∀ a u, x r = .ok a u → Agrees u ∧ Q a u) : Together Q x r t := by
  unfold Together
  have lasts := fun a u => outlasts_of_ok (r := r) (t := u) (a := a) keeps
  generalize x r = a at h good lasts
  generalize x t = b at h
  cases h with
  | ok twins _ => exact .ok twins ⟨(good _ _ rfl).1, lasts _ _ rfl, (good _ _ rfl).2⟩
  | error twins => exact .error twins

theorem pure (h : Twins r t) (hr : Agrees r) {a : α} (q : Q a r) :
    Together Q (pure a : Recording AnyStore α) r t := .ok h ⟨hr, Outlasts.refl _, q⟩

theorem throw (h : Twins r t) (e : Failure) :
    Together Q (throw e : Recording AnyStore α) r t := .error h

/-- What comes after a failure does not run. -/
theorem throw_bind (h : Twins r t) (e : Failure) (f : β → Recording AnyStore α) :
    Together Q (MonadExcept.throw e >>= f : Recording AnyStore α) r t := .error h

end Together

/-! ## Rows that are there -/

namespace AnyStore.Pair

variable {s s' : AnyStore}

theorem origin_there (h : s.Pair s') {name : String} {id : OriginId}
    (held : Holds s (.origin name id)) : ∃ o ∈ s.graph.origins, o.id = id := by
  cases h with
  | of mirrors =>
    exact mirrors.sound.origin_mem ((Memory.holds_iff _ _).mp ((holds_memory _ _).mp held))

theorem symbol_there (h : s.Pair s') {key : SymbolKey} {id : SymbolId}
    (held : Holds s (.symbol key id)) : ∃ row ∈ s.graph.symbols, row.id = id := by
  cases h with
  | of mirrors =>
    exact mirrors.sound.symbol_mem ((Memory.holds_iff _ _).mp ((holds_memory _ _).mp held))

theorem holds_symbol (h : s.Pair s') {row : Symbol} (hrow : row ∈ s.graph.symbols) :
    Holds s (.symbol row.key row.id) := by
  cases h with
  | of mirrors =>
    have listed := mirrors.sound.symbols.listed row hrow
    exact (holds_memory _ _).mpr ((Memory.holds_iff _ _).mpr listed)

/-- The origin of a symbol is there. -/
theorem holds_origin (h : s.Pair s') {row : Symbol} (hrow : row ∈ s.graph.symbols) :
    ∃ name, Holds s (.origin name row.origin) := by
  cases h with
  | of mirrors =>
    obtain ⟨o, ho, hid⟩ := mirrors.origins row hrow
    rw [← hid]
    exact ⟨o.name, (holds_memory _ _).mpr
      ((Memory.holds_iff _ _).mpr (mirrors.sound.origins.listed o ho))⟩

theorem size_fits (h : s.Pair s') {row : Symbol} (hrow : row ∈ s.graph.symbols) :
    row.byteSize < columnEnd := by
  cases h with
  | of mirrors => exact mirrors.sizes row hrow

end AnyStore.Pair

/-! ## Requests -/

/-- A request whose numbers fit and whose rows are there has one end in both stores. -/
theorem AnyStore.Pair.serve {s s' : AnyStore} (h : s.Pair s') {request : Request α}
    (fits : request.Fits) (names : request.NamesRows s.graph) :
    (∃ reply n n', Store.serve request s = .ok reply n ∧ Store.serve request s' = .ok reply n' ∧
        n.Pair n') ∨
      ∃ e n n', Store.serve request s = .error e n ∧ Store.serve request s' = .error e n' ∧
        n.Pair n' := by
  obtain @⟨m, db, mirrors⟩ := h
  have hanswer := mirrors.answer fits names
  simp only [Store.serve, Attempt.ofStep]
  generalize m.answer request = a at hanswer ⊢
  generalize db.answer request = b at hanswer ⊢
  cases hanswer with
  | ok reply mirrors => exact .inl ⟨reply, _, _, rfl, rfl, .of mirrors⟩
  | error e => exact .inr ⟨e, _, _, rfl, rfl, .of mirrors⟩

theorem Twins.ask (h : Twins r t) (request : Request α) (fits : request.Fits)
    (names : request.NamesRows r.store.graph) :
    InStep (fun _ _ => True) (ask request r) (ask request t) := by
  obtain ⟨pair, memo, log⟩ := h
  unfold Recording.ask
  dsimp only
  obtain ⟨reply, n, n', hs, hs', next⟩ | ⟨e, n, n', hs, hs', next⟩ := pair.serve fits names
  · rw [hs, hs']
    exact .ok (.of next _ _) trivial
  · rw [hs, hs']
    exact .error (.of next _ _)

theorem ask_together (h : Twins r t) (hr : Agrees r) (request : Request α) (fits : request.Fits)
    (names : request.NamesRows r.store.graph) :
    Together (fun reply u => Store.serve request r.store = .ok reply u.store) (ask request) r t :=
  .of_inStep (h.ask request fits names) (fun held => (steady_holds held).ask request)
    fun _ _ hask => ⟨hr.ask hask, (ask_ok hask).1⟩

theorem note_together (h : Twins r t) (hr : Agrees r) (event : Log.Event) :
    Together (fun _ _ => True) (note event) r t :=
  .of_inStep (h.apart fun pair _ _ => .ok (.of pair _ _) trivial)
    (fun _ => Steady.note event) fun _ _ hnote => by
      cases hnote
      exact ⟨hr.congr rfl rfl rfl, trivial⟩

/-! ## Look-ups -/

theorem findSymbol_together (h : Twins r t) (hr : Agrees r) (key : SymbolKey)
    (fits : key.byteSize < columnEnd) :
    Together (fun _ _ => True) (findSymbol key) r t := by
  refine .of_inStep ?_ (fun held => (steady_holds held).findSymbol key)
    fun _ _ hfind => ⟨(findSymbol_ok hfind hr).1, trivial⟩
  rw [findSymbol_eq, findSymbol_eq, h.memo]
  split
  · exact .ok h trivial
  · refine (h.ask (.findSymbol key) fits trivial).bind fun found u v huv _ => ?_
    cases found with
    | some id => exact huv.apart fun pair _ _ => .ok (.of pair _ _) trivial
    | none => exact .ok huv trivial

theorem findField_together (h : Twins r t) (hr : Agrees r) (key : FieldKey) :
    Together (fun _ _ => True) (findField key) r t := by
  refine .of_inStep ?_ (fun held => (steady_holds held).findField key)
    fun _ _ hfind => ⟨(findField_ok hfind hr).1, trivial⟩
  rw [findField_eq, findField_eq, h.memo]
  split
  · exact .ok h trivial
  · refine (h.ask (.findField key) trivial trivial).bind fun found u v huv _ => ?_
    cases found with
    | some id => exact huv.apart fun pair _ _ => .ok (.of pair _ _) trivial
    | none => exact .ok huv trivial

/-! ## Rows -/

theorem recover_inStep {ι : Type} (taken : TakenKey) (raw : ι → Int)
    {insert : Recording AnyStore (Inserted ι)} {again : Recording AnyStore (Option ι)}
    (hinsert : InStep (fun _ _ => True) (insert r) (insert t))
    (hagain : ∀ u v, Twins u v → InStep (fun _ _ => True) (again u) (again v)) :
    InStep (fun _ _ => True) (recover taken raw insert again r)
      (recover taken raw insert again t) := by
  unfold recover
  generalize insert r = a at hinsert ⊢
  generalize insert t = b at hinsert ⊢
  cases hinsert with
  | @ok inserted u v huv _ =>
    cases inserted with
    | created id => exact .ok huv trivial
    | existing id =>
      obtain ⟨pair, _, _⟩ := huv
      exact .ok (.of pair _ _) trivial
  | @error e u v huv =>
    cases e with
    | conflict entity key =>
      refine (hagain u v huv).bind fun found u v huv _ => ?_
      cases found with
      | some id => exact huv.apart fun pair _ _ => .ok (.of pair _ _) trivial
      | none => exact .error huv
    | _ => exact .error huv

theorem origin_together (h : Twins r t) (hr : Agrees r) (name : String) (littleEndian : Bool) :
    Together (fun id u => Holds u.store (.origin name id)) (origin name littleEndian) r t := by
  refine .of_inStep ?_ (fun held => (steady_holds held).origin name littleEndian)
    fun _ _ horigin => origin_ok horigin hr
  unfold origin
  refine (h.ask (.findOrigin name) trivial trivial).bind fun found u v huv _ => ?_
  cases found with
  | some id => exact huv.apart fun pair _ _ => .ok (.of pair _ _) trivial
  | none =>
    have hrecover := recover_inStep ⟨"origin", name⟩ OriginId.raw
      (huv.ask (.insertOrigin name littleEndian) trivial trivial)
      fun u v huv => huv.ask (.findOrigin name) trivial trivial
    exact hrecover.bind fun inserted u v huv _ => .ok huv trivial

theorem symbol_together (h : Twins r t) (hr : Agrees r) (row : NewSymbol)
    (fits : row.byteSize < columnEnd) {name : String}
    (horigin : Holds r.store (.origin name row.origin)) :
    Together (fun inserted u => Holds u.store (.symbol row.key inserted.id)) (symbol row) r t := by
  refine .of_inStep ?_ (fun held => (steady_holds held).symbol row)
    fun _ _ hsymbol => symbol_ok hsymbol hr
  unfold symbol
  refine InStep.bind (findSymbol_together h hr row.key fits)
    fun found u v huv hfound => ?_
  obtain ⟨-, lasts, -⟩ := hfound
  cases found with
  | some id => exact huv.apart fun pair _ _ => .ok (.of pair _ _) trivial
  | none =>
    have hrecover := recover_inStep ⟨"symbol", row.key.text⟩ SymbolId.raw
      (huv.ask (.insertSymbol row) fits (huv.stores.origin_there (lasts _ horigin)))
      fun u v huv => huv.ask (.findSymbol row.key) fits trivial
    refine hrecover.bind fun inserted u v huv _ => ?_
    cases inserted with
    | created id => exact huv.apart fun pair _ _ => .ok (.of pair _ _) trivial
    | existing id => exact huv.apart fun pair _ _ => .ok (.of pair _ _) trivial

theorem field_together (h : Twins r t) (hr : Agrees r) (row : NewField)
    (fits : (Request.insertField row).Fits) {owner type : SymbolKey}
    (howner : Holds r.store (.symbol owner row.owner))
    (htype : Holds r.store (.symbol type row.type)) :
    Together (fun _ _ => True) (field row) r t := by
  refine .of_inStep ?_ (fun held => (steady_holds held).field row)
    fun _ _ hfield => ⟨(field_ok hfield hr).1, trivial⟩
  unfold field
  refine InStep.bind (findField_together h hr row.key) fun found u v huv hfound => ?_
  obtain ⟨-, lasts, -⟩ := hfound
  cases found with
  | some id => exact huv.apart fun pair _ _ => .ok (.of pair _ _) trivial
  | none =>
    have hrecover := recover_inStep ⟨"field", row.key.text⟩ FieldId.raw
      (huv.ask (.insertField row) fits ⟨huv.stores.symbol_there (lasts _ howner),
        huv.stores.symbol_there (lasts _ htype)⟩)
      fun u v huv => huv.ask (.findField row.key) trivial trivial
    refine hrecover.bind fun inserted u v huv _ => ?_
    cases inserted with
    | created id => exact huv.apart fun pair _ _ => .ok (.of pair _ _) trivial
    | existing id => exact huv.apart fun pair _ _ => .ok (.of pair _ _) trivial

theorem enumerator_together (h : Twins r t) (hr : Agrees r) {key : SymbolKey} {owner : SymbolId}
    (howner : Holds r.store (.symbol key owner)) (name : String) (value : Int) :
    Together (fun _ _ => True) (enumerator owner name value) r t := by
  refine .of_inStep ?_ (fun held => (steady_holds held).enumerator owner name value)
    fun _ _ henumerator => ⟨(enumerator_ok henumerator hr).1, trivial⟩
  have hask := h.ask (.insertEnumerator owner name value) trivial
    (h.stores.symbol_there howner)
  unfold enumerator
  generalize ask (.insertEnumerator owner name value) r = a at hask ⊢
  generalize ask (.insertEnumerator owner name value) t = b at hask ⊢
  cases hask with
  | @ok inserted u v huv _ =>
    cases inserted with
    | created id =>
      obtain ⟨pair, _, _⟩ := huv
      exact .ok (.of pair _ _) trivial
    | existing id => exact .ok huv trivial
  | @error e u v huv =>
    cases e with
    | conflict entity key =>
      obtain ⟨pair, _, _⟩ := huv
      exact .ok (.of pair _ _) trivial
    | _ => exact .error huv

end LayoutGraph
