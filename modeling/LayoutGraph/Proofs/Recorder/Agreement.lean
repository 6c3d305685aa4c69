-- What a pass has written, a store without faults holds: the memo names
-- rows that are there, and each move that went well leaves its row held.
import LayoutGraph.Proofs.Keep
import LayoutGraph.Proofs.Store.Faultless

namespace LayoutGraph

open Chain Recording

variable {σ : Type} [Store σ]

/-! ## Requests and look-ups -/

/-- What a request that went well did to the recorder. -/
theorem ask_ok {α : Type} {request : Request α} {r t : Recorder σ} {reply : α}
    (h : ask request r = .ok reply t) :
    Store.serve request r.store = .ok reply t.store ∧ t.memo = r.memo ∧ t.log = r.log := by
  unfold ask at h
  split at h <;> cases h
  rename_i heq
  exact ⟨heq, rfl, rfl⟩

theorem ask_error {α : Type} {request : Request α} {r t : Recorder σ} {e : Failure}
    (h : ask request r = .error e t) : Store.serve request r.store = .error e t.store := by
  unfold ask at h
  split at h <;> cases h
  assumption

theorem ask_of_ok {α : Type} {request : Request α} {r : Recorder σ} {reply : α} {s : σ}
    (h : Store.serve request r.store = .ok reply s) :
    ask request r = .ok reply { r with store := s } := by
  unfold ask
  rw [h]

/-- The memo is asked first, then the store. -/
theorem findSymbol_eq (key : SymbolKey) (r : Recorder σ) :
    findSymbol key r = match r.memo.symbols.find? key with
      | some id => .ok (some id) r
      | none => (do
        match ← ask (.findSymbol key) with
        | some id =>
          modifyMemo fun m => { m with symbols := m.symbols.insert key id }
          return some id
        | none => return none : Recording σ (Option SymbolId)) r := by
  unfold findSymbol
  rw [bind_of_ok (get_apply r)]
  cases r.memo.symbols.find? key <;> rfl

theorem findField_eq (key : FieldKey) (r : Recorder σ) :
    findField key r = match r.memo.fields.find? key with
      | some id => .ok (some id) r
      | none => (do
        match ← ask (.findField key) with
        | some id =>
          modifyMemo fun m => { m with fields := m.fields.insert key id }
          return some id
        | none => return none : Recording σ (Option FieldId)) r := by
  unfold findField
  rw [bind_of_ok (get_apply r)]
  cases r.memo.fields.find? key <;> rfl

theorem symbolId_eq (setting : Setting) (key : SymbolKey) (r : Recorder σ) :
    symbolId setting key r = match r.memo.symbols.find? key with
      | some id => .ok id r
      | none => (do
        return (← symbol ⟨setting.origin, key.name, key.byteSize⟩).id : Recording σ SymbolId) r := by
  unfold symbolId
  rw [bind_of_ok (get_apply r)]
  cases r.memo.symbols.find? key <;> rfl

/-- The recorder with another log. Nothing but the reader of the log depends on it. -/
def Recorder.withLog (r : Recorder σ) (log : Array Log.Event) : Recorder σ := { r with log }

/-! ## The memo and the store -/

/-- The memo names the rows that the store holds. -/
structure Agrees (r : Recorder σ) : Prop where
  symbols : ∀ key id, r.memo.symbols.find? key = some id → Holds r.store (.symbol key id)
  fields : ∀ key id, r.memo.fields.find? key = some id → Holds r.store (.field key id)

theorem agrees_start (s : σ) : Agrees ({ store := s } : Recorder σ) := by
  constructor <;> intro key id h <;> cases h

/-- The counters and the log are no part of the agreement. -/
theorem Agrees.congr {r t : Recorder σ} (h : Agrees r) (hstore : t.store = r.store)
    (hsymbols : t.memo.symbols = r.memo.symbols) (hfields : t.memo.fields = r.memo.fields) :
    Agrees t := by
  constructor
  · rw [hstore, hsymbols]
    exact h.symbols
  · rw [hstore, hfields]
    exact h.fields

theorem Agrees.insertSymbol {r : Recorder σ} {key : SymbolKey} {id : SymbolId} (h : Agrees r)
    (hid : Holds r.store (.symbol key id)) :
    Agrees { r with memo := { r.memo with symbols := r.memo.symbols.insert key id } } := by
  refine ⟨fun other found hfind => ?_, h.fields⟩
  rw [Index.find?_insert] at hfind
  split at hfind
  · rename_i heq
    cases hfind
    exact heq ▸ hid
  · exact h.symbols other found hfind

theorem Agrees.insertField {r : Recorder σ} {key : FieldKey} {id : FieldId} (h : Agrees r)
    (hid : Holds r.store (.field key id)) :
    Agrees { r with memo := { r.memo with fields := r.memo.fields.insert key id } } := by
  refine ⟨h.symbols, fun other found hfind => ?_⟩
  rw [Index.find?_insert] at hfind
  split at hfind
  · rename_i heq
    cases hfind
    exact heq ▸ hid
  · exact h.fields other found hfind

variable [Faultless σ]

/-- A request keeps the agreement, for what is held lasts. -/
theorem Agrees.ask {α : Type} {request : Request α} {r t : Recorder σ} {reply : α} (h : Agrees r)
    (hask : Recording.ask request r = .ok reply t) : Agrees t := by
  obtain ⟨hserve, hmemo, -⟩ := ask_ok hask
  have hleft : left (Store.serve request r.store) = t.store := by rw [hserve]; rfl
  constructor
  · intro key id hfind
    rw [hmemo] at hfind
    exact hleft ▸ Faultless.lasts request r.store _ (h.symbols key id hfind)
  · intro key id hfind
    rw [hmemo] at hfind
    exact hleft ▸ Faultless.lasts request r.store _ (h.fields key id hfind)

/-- A store without faults never makes `recover` look up again: the row is the one that the
insert names. -/
theorem recover_ok {ι : Type} {taken : TakenKey} {raw : ι → Int} {request : Request (Inserted ι)}
    {again : Recording σ (Option ι)} {r t : Recorder σ} {inserted : Inserted ι}
    (h : recover taken raw (ask request) again r = .ok inserted t) :
    ∃ m, ask request r = .ok inserted m ∧ t.store = m.store ∧ t.memo.symbols = m.memo.symbols ∧
      t.memo.fields = m.memo.fields := by
  unfold recover at h
  split at h <;> rename_i heq
  · cases h
    exact ⟨_, heq, rfl, rfl, rfl⟩
  · cases h
    exact ⟨_, heq, rfl, rfl, rfl⟩
  · unfold ask at heq
    split at heq <;> cases heq
    rename_i hserve
    exact absurd hserve Faultless.noConflict
  · cases h

/-! ## Rows are held once they are written -/

theorem findSymbol_ok {key : SymbolKey} {r t : Recorder σ} {found : Option SymbolId}
    (h : findSymbol key r = .ok found t) (hr : Agrees r) :
    Agrees t ∧ ∀ id, found = some id → Holds t.store (.symbol key id) := by
  rw [findSymbol_eq] at h
  split at h
  · rename_i id hmemo
    cases h
    exact ⟨hr, fun other hother => by cases hother; exact hr.symbols key id hmemo⟩
  · obtain ⟨reply, m, hask, h⟩ := bind_ok_iff.mp h
    have hm := hr.ask hask
    cases reply with
    | none =>
      cases h
      exact ⟨hm, fun id hid => by cases hid⟩
    | some id =>
      cases h
      obtain ⟨hserve, -, -⟩ := ask_ok hask
      have hid : Holds m.store (.symbol key id) := by
        rwa [← Faultless.findSymbol hserve] at hserve
      exact ⟨hm.insertSymbol hid, fun other hother => by cases hother; exact hid⟩

theorem findField_ok {key : FieldKey} {r t : Recorder σ} {found : Option FieldId}
    (h : findField key r = .ok found t) (hr : Agrees r) :
    Agrees t ∧ ∀ id, found = some id → Holds t.store (.field key id) := by
  rw [findField_eq] at h
  split at h
  · rename_i id hmemo
    cases h
    exact ⟨hr, fun other hother => by cases hother; exact hr.fields key id hmemo⟩
  · obtain ⟨reply, m, hask, h⟩ := bind_ok_iff.mp h
    have hm := hr.ask hask
    cases reply with
    | none =>
      cases h
      exact ⟨hm, fun id hid => by cases hid⟩
    | some id =>
      cases h
      obtain ⟨hserve, -, -⟩ := ask_ok hask
      have hid : Holds m.store (.field key id) := by
        rwa [← Faultless.findField hserve] at hserve
      exact ⟨hm.insertField hid, fun other hother => by cases hother; exact hid⟩

theorem origin_ok {name : String} {littleEndian : Bool} {r t : Recorder σ} {id : OriginId}
    (h : origin name littleEndian r = .ok id t) (hr : Agrees r) :
    Agrees t ∧ Holds t.store (.origin name id) := by
  unfold origin at h
  obtain ⟨found, m, hask, h⟩ := bind_ok_iff.mp h
  have hm := hr.ask hask
  cases found with
  | some known =>
    cases h
    obtain ⟨hserve, -, -⟩ := ask_ok hask
    have hid : Holds m.store (.origin name id) := by
      rwa [← Faultless.findOrigin hserve] at hserve
    exact ⟨hm.congr rfl rfl rfl, hid⟩
  | none =>
    obtain ⟨inserted, n, hrecover, h⟩ := bind_ok_iff.mp h
    cases h
    obtain ⟨k, hask, hstore, hsymbols, hfields⟩ := recover_ok hrecover
    have hk := Faultless.insert (ask_ok hask).1 rfl
    rw [← hstore] at hk
    exact ⟨(hm.ask hask).congr hstore hsymbols hfields, hk⟩

theorem symbol_ok {row : NewSymbol} {r t : Recorder σ} {inserted : Inserted SymbolId}
    (h : symbol row r = .ok inserted t) (hr : Agrees r) :
    Agrees t ∧ Holds t.store (.symbol row.key inserted.id) := by
  unfold symbol at h
  obtain ⟨found, m, hfind, h⟩ := bind_ok_iff.mp h
  obtain ⟨hm, hheld⟩ := findSymbol_ok hfind hr
  cases found with
  | some id =>
    cases h
    exact ⟨hm.congr rfl rfl rfl, hheld id rfl⟩
  | none =>
    obtain ⟨reply, n, hrecover, h⟩ := bind_ok_iff.mp h
    obtain ⟨k, hask, hstore, hsymbols, hfields⟩ := recover_ok hrecover
    have hk := Faultless.insert (ask_ok hask).1 rfl
    have hn : Agrees n := (hm.ask hask).congr hstore hsymbols hfields
    rw [← hstore] at hk
    cases reply <;> cases h <;> exact ⟨(hn.insertSymbol hk).congr rfl rfl rfl, hk⟩

theorem field_ok {row : NewField} {r t : Recorder σ} {inserted : Inserted FieldId}
    (h : field row r = .ok inserted t) (hr : Agrees r) :
    Agrees t ∧ Holds t.store (.field row.key inserted.id) := by
  unfold field at h
  obtain ⟨found, m, hfind, h⟩ := bind_ok_iff.mp h
  obtain ⟨hm, hheld⟩ := findField_ok hfind hr
  cases found with
  | some id =>
    cases h
    exact ⟨hm.congr rfl rfl rfl, hheld id rfl⟩
  | none =>
    obtain ⟨reply, n, hrecover, h⟩ := bind_ok_iff.mp h
    obtain ⟨k, hask, hstore, hsymbols, hfields⟩ := recover_ok hrecover
    have hk := Faultless.insert (ask_ok hask).1 rfl
    have hn : Agrees n := (hm.ask hask).congr hstore hsymbols hfields
    rw [← hstore] at hk
    cases reply <;> cases h <;> exact ⟨(hn.insertField hk).congr rfl rfl rfl, hk⟩

theorem enumerator_ok {owner : SymbolId} {name : String} {value : Int} {r t : Recorder σ}
    (h : enumerator owner name value r = .ok () t) (hr : Agrees r) :
    Agrees t ∧ ∃ id, Holds t.store (.enumerator ⟨owner, name⟩ id) := by
  unfold enumerator at h
  split at h <;> rename_i heq
  · cases h
    exact ⟨(hr.ask heq).congr rfl rfl rfl, _, Faultless.insert (ask_ok heq).1 rfl⟩
  · cases h
    exact ⟨hr.ask heq, _, Faultless.insert (ask_ok heq).1 rfl⟩
  · unfold ask at heq
    split at heq <;> cases heq
    rename_i hserve
    exact absurd hserve Faultless.noConflict
  · cases h

theorem symbolId_ok {setting : Setting} {key : SymbolKey} {r t : Recorder σ} {id : SymbolId}
    (h : symbolId setting key r = .ok id t) (hr : Agrees r) :
    Agrees t ∧ Holds t.store (.symbol key id) := by
  rw [symbolId_eq] at h
  split at h
  · rename_i hmemo
    cases h
    exact ⟨hr, hr.symbols key _ hmemo⟩
  · obtain ⟨inserted, m, hsymbol, h⟩ := bind_ok_iff.mp h
    cases h
    exact symbol_ok hsymbol hr

/-! ## What is held stays held -/

theorem steady_holds (held : Holding) : Steady fun s : σ => Holds s held :=
  ⟨fun request s h => Faultless.lasts request s held h⟩

/-- Every holding of one state is a holding of the other. -/
def Outlasts (s t : σ) : Prop := ∀ held, Holds s held → Holds t held

omit [Faultless σ] in
theorem Outlasts.refl (s : σ) : Outlasts s s := fun _ h => h

omit [Faultless σ] in
theorem Outlasts.trans {s t u : σ} (h : Outlasts s t) (h' : Outlasts t u) : Outlasts s u :=
  fun held hs => h' held (h held hs)

omit [Faultless σ] in
/-- Work that keeps every holding, seen from a run of it that went well. -/
theorem outlasts_of_ok {α : Type} {x : Recording σ α} {r t : Recorder σ} {a : α}
    (hx : ∀ held, Keeps (InStore fun s : σ => Holds s held) x) (h : x r = .ok a t) :
    Outlasts r.store t.store := by
  intro held hr
  have hleft := hx held r hr
  rw [h] at hleft
  exact hleft

/-! ## Steps leave their rows held -/

/-- The rows of a step are there. -/
def HoldsStep (s : σ) : Survey.Step → Prop
  | .visit _ _ => True
  | .symbol key => ∃ id, Holds s (.symbol key id)
  | .field step => ∃ owner type id, Holds s (.symbol step.owner owner) ∧
      Holds s (.symbol step.type type) ∧ Holds s (.field ⟨owner, step.name⟩ id)
  | .enumerator key constant => ∃ owner id, Holds s (.symbol key owner) ∧
      Holds s (.enumerator ⟨owner, constant.name⟩ id)

omit [Faultless σ] in
theorem HoldsStep.mono {s t : σ} {step : Survey.Step} (h : HoldsStep s step)
    (lasts : Outlasts s t) : HoldsStep t step := by
  cases step with
  | visit entry name => exact trivial
  | symbol key =>
    obtain ⟨id, hid⟩ := h
    exact ⟨id, lasts _ hid⟩
  | field step =>
    obtain ⟨owner, type, id, howner, htype, hid⟩ := h
    exact ⟨owner, type, id, lasts _ howner, lasts _ htype, lasts _ hid⟩
  | enumerator key constant =>
    obtain ⟨owner, id, howner, hid⟩ := h
    exact ⟨owner, id, lasts _ howner, lasts _ hid⟩

theorem listFor_ok {extents : List Nat} {r t : Recorder σ} {list : Option ListId}
    (h : listFor extents r = .ok list t) (hr : Agrees r) : Agrees t := by
  unfold listFor at h
  split at h
  · cases h
    exact hr
  · obtain ⟨list, m, hask, h⟩ := bind_ok_iff.mp h
    cases h
    exact hr.ask hask

theorem writeDimensions_ok {list : ListId} {extents : List Nat} {r t : Recorder σ}
    (h : writeDimensions list extents r = .ok ⟨⟩ t) (hr : Agrees r) : Agrees t := by
  unfold writeDimensions at h
  generalize extents.zipIdx = axes at h
  induction axes generalizing r with
  | nil =>
    cases h
    exact hr
  | cons axis rest ih =>
    obtain ⟨_, m, hm, h⟩ := forM_cons_ok_iff.mp h
    obtain ⟨id, n, hask, hm⟩ := bind_ok_iff.mp hm
    cases hm
    exact ih (hr.ask hask) h

theorem writeField_ok {setting : Setting} {step : Survey.FieldStep} {r t : Recorder σ}
    (h : writeField setting step r = .ok () t) (hr : Agrees r) :
    Agrees t ∧ HoldsStep t.store (.field step) := by
  unfold writeField at h
  obtain ⟨owner, r1, howner, h⟩ := bind_ok_iff.mp h
  obtain ⟨type, r2, htype, h⟩ := bind_ok_iff.mp h
  obtain ⟨list, r3, hlist, h⟩ := bind_ok_iff.mp h
  obtain ⟨inserted, r4, hfield, h⟩ := bind_ok_iff.mp h
  obtain ⟨h1, howner1⟩ := symbolId_ok howner hr
  obtain ⟨h2, htype2⟩ := symbolId_ok htype h1
  obtain ⟨h4, hfield4⟩ := field_ok hfield (listFor_ok hlist h2)
  -- Each holding is carried from the move that made it to the end of the step.
  have to4 : Outlasts r2.store r4.store :=
    (outlasts_of_ok (fun held => (steady_holds held).listFor _) hlist).trans
      (outlasts_of_ok (fun held => (steady_holds held).field _) hfield)
  have to2 : Outlasts r1.store r2.store :=
    outlasts_of_ok (fun held => (steady_holds held).symbolId _ _) htype
  split at h
  · have last : Outlasts r4.store t.store :=
      outlasts_of_ok (fun held => (steady_holds held).writeDimensions _ _) h
    exact ⟨writeDimensions_ok h h4, owner, type, _, last _ (to4 _ (to2 _ howner1)),
      last _ (to4 _ htype2), last _ hfield4⟩
  · cases h
    exact ⟨h4, owner, type, _, to4 _ (to2 _ howner1), to4 _ htype2, hfield4⟩

theorem writeStep_ok {setting : Setting} {step : Survey.Step} {r t : Recorder σ}
    (h : writeStep setting step r = .ok () t) (hr : Agrees r) :
    Agrees t ∧ HoldsStep t.store step := by
  cases step with
  | visit entry name =>
    cases h
    exact ⟨hr.congr rfl rfl rfl, trivial⟩
  | symbol key =>
    obtain ⟨inserted, m, hsymbol, h⟩ := bind_ok_iff.mp h
    cases h
    obtain ⟨hm, hid⟩ := symbol_ok hsymbol hr
    exact ⟨hm, _, hid⟩
  | field step => exact writeField_ok h hr
  | enumerator key constant =>
    obtain ⟨owner, m, howner, h⟩ := bind_ok_iff.mp h
    obtain ⟨hm, hheld⟩ := symbolId_ok howner hr
    obtain ⟨ht, id, hid⟩ := enumerator_ok h hm
    have last : Outlasts m.store t.store :=
      outlasts_of_ok (fun held => (steady_holds held).enumerator _ _ _) h
    exact ⟨ht, owner, id, last _ hheld, hid⟩

theorem writeSteps_ok {setting : Setting} {steps : List Survey.Step} {r t : Recorder σ}
    (h : writeSteps setting steps r = .ok ⟨⟩ t) (hr : Agrees r) :
    Agrees t ∧ ∀ step ∈ steps, HoldsStep t.store step := by
  unfold writeSteps at h
  induction steps generalizing r with
  | nil =>
    cases h
    exact ⟨hr, fun step hstep => by cases hstep⟩
  | cons step rest ih =>
    obtain ⟨_, m, hm, h⟩ := forM_cons_ok_iff.mp h
    obtain ⟨hagrees, hheld⟩ := writeStep_ok hm hr
    obtain ⟨ht, hrest⟩ := ih h hagrees
    have last : Outlasts m.store t.store :=
      outlasts_of_ok (fun held => (steady_holds held).writeSteps _ _) h
    refine ⟨ht, fun other hother => ?_⟩
    rcases List.mem_cons.mp hother with rfl | hother
    · exact hheld.mono last
    · exact hrest other hother

end LayoutGraph
