-- What every request keeps, every program keeps. A pass, a remap and an
-- override reach a store through requests alone, so a property of the store
-- that no request breaks holds after them, also where they fail on the way.
import LayoutGraph.Change.Override
import LayoutGraph.Change.Remap
import LayoutGraph.Pass
import LayoutGraph.Proofs.Chain

namespace LayoutGraph

open Chain Recording

/-! ## What the parts of a move keep, the move keeps -/

theorem keeps_recover {σ ι : Type} {P : Recorder σ → Prop} (taken : TakenKey) (raw : ι → Int)
    {insert : Recording σ (Inserted ι)} {again : Recording σ (Option ι)}
    (hcount : Keeps P (countConflict : Recording σ Unit))
    (hnote : ∀ event, Keeps P (note event : Recording σ Unit))
    (hinsert : Keeps P insert) (hagain : Keeps P again) :
    Keeps P (recover taken raw insert again) := by
  intro start hstart
  have hleft := hinsert start hstart
  unfold recover
  split <;> rename_i heq <;> rw [heq] at hleft
  · exact hleft
  · exact keeps_bind hcount (fun _ => keeps_bind (hnote _) fun _ => keeps_pure _) _ hleft
  · refine keeps_bind hagain (fun found => ?_) _ hleft
    split
    · exact keeps_bind hcount fun _ => keeps_bind (hnote _) fun _ => keeps_pure _
    · exact keeps_throw _
  · exact hleft

theorem keeps_findSymbol {σ : Type} [Store σ] {P : Recorder σ → Prop} {key : SymbolKey}
    (hask : Keeps P (ask (.findSymbol key) : Recording σ _))
    (hremember : ∀ id, Keeps P
      (modifyMemo (fun m => { m with symbols := m.symbols.insert key id }) : Recording σ Unit)) :
    Keeps P (findSymbol key : Recording σ _) := by
  unfold findSymbol
  refine keeps_bind keeps_get fun r => ?_
  split
  · exact keeps_pure _
  · refine keeps_bind hask fun found => ?_
    split
    · exact keeps_bind (hremember _) fun _ => keeps_pure _
    · exact keeps_pure _

theorem keeps_findField {σ : Type} [Store σ] {P : Recorder σ → Prop} {key : FieldKey}
    (hask : Keeps P (ask (.findField key) : Recording σ _))
    (hremember : ∀ id, Keeps P
      (modifyMemo (fun m => { m with fields := m.fields.insert key id }) : Recording σ Unit)) :
    Keeps P (findField key : Recording σ _) := by
  unfold findField
  refine keeps_bind keeps_get fun r => ?_
  split
  · exact keeps_pure _
  · refine keeps_bind hask fun found => ?_
    split
    · exact keeps_bind (hremember _) fun _ => keeps_pure _
    · exact keeps_pure _

/-! ## Properties of the store -/

/-- No request makes `P` false, whichever way the store serves it. -/
structure Steady {σ : Type} [Store σ] (P : σ → Prop) : Prop where
  serve {α : Type} (request : Request α) (s : σ) : P s → P (left (Store.serve request s))

/-- The store of a recorder has the property. -/
def InStore {σ : Type} (P : σ → Prop) (r : Recorder σ) : Prop := P r.store

namespace Steady

variable {σ : Type} {P : σ → Prop}

/-! ## Single moves -/

theorem note (event : Log.Event) : Keeps (InStore P) (Recording.note event : Recording σ Unit) :=
  keeps_modify fun _ h => h

theorem modifyMemo (f : Memo → Memo) :
    Keeps (InStore P) (Recording.modifyMemo f : Recording σ Unit) :=
  keeps_modify fun _ h => h

theorem count (f : Tally → Tally) : Keeps (InStore P) (Recording.count f : Recording σ Unit) :=
  keeps_modify fun _ h => h

theorem countConflict : Keeps (InStore P) (Recording.countConflict : Recording σ Unit) := count _

theorem recover {ι : Type} (taken : TakenKey) (raw : ι → Int)
    {insert : Recording σ (Inserted ι)} {again : Recording σ (Option ι)}
    (hinsert : Keeps (InStore P) insert) (hagain : Keeps (InStore P) again) :
    Keeps (InStore P) (Recording.recover taken raw insert again) :=
  keeps_recover taken raw countConflict note hinsert hagain

variable [Store σ]

theorem ask (hP : Steady P) {α : Type} (request : Request α) :
    Keeps (InStore P) (Recording.ask request : Recording σ α) := by
  intro r hr
  have h := hP.serve request r.store hr
  unfold Recording.ask
  split
  · rename_i heq
    rw [heq] at h
    exact h
  · rename_i heq
    rw [heq] at h
    exact h

end Steady

/-! ## Moves -/

section

variable {σ : Type} {P : σ → Prop} [Store σ]

theorem keeps_origin {name : String} {littleEndian : Bool}
    (hfind : Keeps (InStore P) (ask (.findOrigin name) : Recording σ _))
    (hinsert : Keeps (InStore P) (ask (.insertOrigin name littleEndian) : Recording σ _)) :
    Keeps (InStore P) (origin name littleEndian : Recording σ _) := by
  unfold origin
  refine keeps_bind hfind fun found => ?_
  split
  · exact keeps_bind (Steady.note _) fun _ => keeps_pure _
  · exact keeps_bind (Steady.recover _ _ hinsert hfind) fun _ => keeps_pure _

theorem keeps_symbol {row : NewSymbol}
    (hfind : Keeps (InStore P) (ask (.findSymbol row.key) : Recording σ _))
    (hinsert : Keeps (InStore P) (ask (.insertSymbol row) : Recording σ _)) :
    Keeps (InStore P) (symbol row : Recording σ _) := by
  unfold symbol
  refine keeps_bind (keeps_findSymbol hfind fun _ => Steady.modifyMemo _) fun found => ?_
  split
  · exact keeps_bind (Steady.count _) fun _ => keeps_bind (Steady.note _) fun _ => keeps_pure _
  · refine keeps_bind (Steady.recover _ _ hinsert hfind) fun inserted => ?_
    refine keeps_bind (Steady.modifyMemo _) fun _ => ?_
    split
    · exact keeps_bind (Steady.count _) fun _ => keeps_bind (Steady.note _) fun _ => keeps_pure _
    · exact keeps_bind (Steady.count _) fun _ => keeps_pure _

theorem keeps_enumerator {id : SymbolId} {name : String} {value : Int}
    (hinsert : Keeps (InStore P) (ask (.insertEnumerator id name value) : Recording σ _)) :
    Keeps (InStore P) (enumerator id name value : Recording σ Unit) := by
  intro start hstart
  have hleft := hinsert start hstart
  unfold enumerator
  split <;> rename_i heq <;> rw [heq] at hleft
  · exact hleft
  · exact hleft
  · exact keeps_bind (Steady.note _) (fun _ => Steady.countConflict) _ hleft
  · exact hleft

theorem keeps_symbolId {setting : Setting} {key : SymbolKey}
    (hsymbol : Keeps (InStore P)
      (symbol ⟨setting.origin, key.name, key.byteSize⟩ : Recording σ _)) :
    Keeps (InStore P) (symbolId setting key : Recording σ _) := by
  unfold symbolId
  refine keeps_bind keeps_get fun r => ?_
  split
  · exact keeps_pure _
  · exact keeps_bind hsymbol fun _ => keeps_pure _

theorem keeps_writeDimensions {list : ListId} {extents : List Nat}
    (hask : ∀ order extent,
      Keeps (InStore P) (ask (.insertDimension list order extent) : Recording σ _)) :
    Keeps (InStore P) (writeDimensions list extents : Recording σ Unit) :=
  keeps_forM (fun _ => keeps_bind (hask _ _) fun _ => keeps_pure _) _

/-- A mapping that is refused is refused where it was to be looked up. -/
theorem goes_planMapping {R F : Recorder σ → Prop} (refused : ∀ r, R r → F r)
    (hask : ∀ name, Goes R F (ask (.symbolsNamed name) : Recording σ _)) (seen : List String)
    (m : Change.Mapping) : Goes R F (Change.planMapping seen m : Recording σ _) := by
  unfold Change.planMapping
  dsimp only
  split
  · exact goes_throw_bind refused _ _
  split
  · exact goes_throw_bind refused _ _
  refine goes_bind (hask _) fun sources => ?_
  split
  · exact goes_throw_bind refused _ _
  refine goes_bind (hask _) fun targets => ?_
  split
  · exact goes_throw refused _
  · exact goes_pure _

theorem goes_planMappings {R F : Recorder σ → Prop} (refused : ∀ r, R r → F r)
    (hask : ∀ name, Goes R F (ask (.symbolsNamed name) : Recording σ _)) (seen : List String)
    (ms : List Change.Mapping) : Goes R F (Change.planMappings seen ms : Recording σ _) := by
  induction ms generalizing seen with
  | nil => exact goes_pure []
  | cons m rest ih =>
    refine goes_bind (goes_planMapping refused hask seen m) fun plan => ?_
    exact goes_bind (ih _) fun plans => goes_pure (plan :: plans)

end

/-- The store behind a call to parse is the one that its pass leaves. -/
theorem Session.parse_store {σ : Type} [Store σ] (source : Source) (s : σ) :
    (Session.parse source s).2 = (left (Pass.write source { store := s })).store := by
  unfold Session.parse
  cases Pass.write source { store := s } with
  | ok u t => rfl
  | error e t =>
    dsimp only
    split <;> rfl

namespace Steady

variable {σ : Type} {P : σ → Prop} [Store σ]

/-! ## Merging -/

theorem findSymbol (hP : Steady P) (key : SymbolKey) :
    Keeps (InStore P) (Recording.findSymbol key : Recording σ _) :=
  keeps_findSymbol (hP.ask _) fun _ => modifyMemo _

theorem findField (hP : Steady P) (key : FieldKey) :
    Keeps (InStore P) (Recording.findField key : Recording σ _) :=
  keeps_findField (hP.ask _) fun _ => modifyMemo _

theorem origin (hP : Steady P) (name : String) (littleEndian : Bool) :
    Keeps (InStore P) (Recording.origin name littleEndian : Recording σ _) :=
  keeps_origin (hP.ask _) (hP.ask _)

theorem symbol (hP : Steady P) (row : NewSymbol) :
    Keeps (InStore P) (Recording.symbol row : Recording σ _) := keeps_symbol (hP.ask _) (hP.ask _)

theorem enumerator (hP : Steady P) (id : SymbolId) (name : String) (value : Int) :
    Keeps (InStore P) (Recording.enumerator id name value : Recording σ Unit) :=
  keeps_enumerator (hP.ask _)

theorem field (hP : Steady P) (row : NewField) :
    Keeps (InStore P) (Recording.field row : Recording σ _) := by
  unfold Recording.field
  refine keeps_bind (hP.findField _) fun found => ?_
  split
  · exact keeps_bind (count _) fun _ => keeps_pure _
  · refine keeps_bind (recover _ _ (hP.ask _) (hP.ask _)) fun inserted => ?_
    refine keeps_bind (modifyMemo _) fun _ => ?_
    split
    · exact keeps_bind (count _) fun _ => keeps_bind (note _) fun _ => keeps_pure _
    · exact keeps_bind (count _) fun _ => keeps_pure _

/-! ## Passes -/

theorem symbolId (hP : Steady P) (setting : Setting) (key : SymbolKey) :
    Keeps (InStore P) (Recording.symbolId setting key : Recording σ _) :=
  keeps_symbolId (hP.symbol _)

theorem listFor (hP : Steady P) (extents : List Nat) :
    Keeps (InStore P) (Recording.listFor extents : Recording σ _) := by
  unfold Recording.listFor
  split
  · exact keeps_pure _
  · exact keeps_bind (hP.ask _) fun _ => keeps_pure _

theorem writeDimensions (hP : Steady P) (list : ListId) (extents : List Nat) :
    Keeps (InStore P) (Recording.writeDimensions list extents : Recording σ Unit) :=
  keeps_writeDimensions fun _ _ => hP.ask _

theorem writeField (hP : Steady P) (setting : Setting) (step : Survey.FieldStep) :
    Keeps (InStore P) (Recording.writeField setting step : Recording σ Unit) := by
  unfold Recording.writeField
  refine keeps_bind (hP.symbolId _ _) fun owner => ?_
  refine keeps_bind (hP.symbolId _ _) fun type => ?_
  refine keeps_bind (hP.listFor _) fun dimensions => keeps_bind (hP.field _) fun inserted => ?_
  split
  · exact hP.writeDimensions _ _
  · exact keeps_pure _

theorem writeStep (hP : Steady P) (setting : Setting) (step : Survey.Step) :
    Keeps (InStore P) (Recording.writeStep setting step : Recording σ Unit) := by
  cases step with
  | visit entry name => exact note _
  | symbol key => exact keeps_bind (hP.symbol _) fun _ => keeps_pure _
  | field step => exact hP.writeField setting step
  | enumerator key constant =>
    exact keeps_bind (hP.symbolId _ _) fun id => hP.enumerator id _ _

theorem writeSteps (hP : Steady P) (setting : Setting) (steps : List Survey.Step) :
    Keeps (InStore P) (Recording.writeSteps setting steps : Recording σ Unit) :=
  keeps_forM (hP.writeStep setting) _

theorem writeResolution (hP : Steady P) (setting : Setting) (r : Survey.Resolution) :
    Keeps (InStore P) (Pass.writeResolution setting r : Recording σ Unit) := by
  unfold Pass.writeResolution
  refine keeps_bind (hP.writeSteps setting _) fun _ => ?_
  split
  · exact keeps_throw _
  · exact keeps_pure _

theorem writeResolutions (hP : Steady P) (name : String) (setting : Setting)
    (rs : List Survey.Resolution) :
    Keeps (InStore P) (Pass.writeResolutions name setting rs : Recording σ _) := by
  induction rs with
  | nil => exact keeps_pure none
  | cons r rest ih =>
    intro before hbefore
    have hleft := hP.writeResolution setting r before hbefore
    unfold Pass.writeResolutions
    split <;> rename_i heq <;> rw [heq] at hleft
    · exact ih _ hleft
    · split
      · exact keeps_bind (note _) (fun _ => keeps_pure _) _ hleft
      · exact hleft

/-- A pass keeps what every request keeps. -/
theorem write (hP : Steady P) (source : Source) :
    Keeps (InStore P) (Pass.write source : Recording σ Unit) := by
  unfold Pass.write
  refine keeps_bind (hP.origin _ _) fun origin => ?_
  refine keeps_bind (note _) fun _ => ?_
  refine keeps_bind (hP.writeResolutions _ _ _) fun failure => ?_
  refine keeps_bind (hP.ask _) fun _ => ?_
  split
  · exact keeps_throw _
  · exact keeps_bind keeps_get fun _ => note _

theorem parse (hP : Steady P) (source : Source) {s : σ} (h : P s) :
    P (Session.parse source s).2 := by
  rw [Session.parse_store]
  exact hP.write source { store := s } h

/-! ## Changes -/

open Change

theorem retargetAll (hP : Steady P) (target : SymbolId) (sources : List SymbolId) :
    Keeps (InStore P) (Change.retargetAll target sources : Recording σ Nat) := by
  induction sources with
  | nil => exact keeps_pure 0
  | cons source rest ih =>
    exact keeps_bind (hP.ask _) fun _ => keeps_bind ih fun _ => keeps_pure _

/-- A remap keeps what every request keeps. -/
theorem remap (hP : Steady P) (mappings : List Mapping) :
    Keeps (InStore P) (Change.remap mappings : Recording σ _) := by
  have planned : Keeps (InStore P) (planMappings [] mappings : Recording σ _) :=
    (goes_planMappings (fun _ h => h) (fun name => (hP.ask _).goes) [] mappings).keeps
  refine keeps_bind planned fun plans => ?_
  refine keeps_bind (keeps_mapM (fun plan => ?_) _) fun report => ?_
  · exact keeps_bind (hP.retargetAll _ _) fun _ => keeps_bind (note _) fun _ => keeps_pure _
  · exact keeps_bind (hP.ask _) fun _ => keeps_pure _

theorem locate (hP : Steady P) (o : Override) :
    Keeps (InStore P) (Change.locate o : Recording σ _) := by
  unfold Change.locate
  refine keeps_bind (hP.ask _) fun symbols => ?_
  split
  · exact keeps_throw _
  refine keeps_bind (hP.ask _) fun found => ?_
  split
  · exact keeps_throw _
  refine keeps_bind (hP.ask _) fun row => ?_
  split
  · exact keeps_throw _
  refine keeps_bind (hP.ask _) fun previous => ?_
  split
  · exact keeps_throw _
  · exact keeps_pure _

theorem planOverrides (hP : Steady P) (seen : List (String × String)) (os : List Override) :
    Keeps (InStore P) (Change.planOverrides seen os : Recording σ _) := by
  induction os generalizing seen with
  | nil => exact keeps_pure []
  | cons o rest ih =>
    refine keeps_bind ?_ fun _ => keeps_bind (ih _) fun _ => keeps_pure _
    unfold planOverride
    dsimp only
    split
    · exact keeps_throw_bind _ _
    split
    · exact keeps_throw _
    · exact hP.locate o

theorem applyOverridePlan (hP : Steady P) (plan : OverridePlan) :
    Keeps (InStore P) (Change.applyOverridePlan plan : Recording σ _) := by
  unfold Change.applyOverridePlan
  refine keeps_bind (hP.symbol _) fun inserted => ?_
  refine keeps_bind keeps_get fun _ => ?_
  refine keeps_bind (keeps_forM (fun _ => hP.enumerator _ _ _) _) fun _ => ?_
  refine keeps_bind keeps_get fun _ => ?_
  refine keeps_bind (hP.ask _) fun found => ?_
  dsimp only
  split
  · exact keeps_throw_bind _ _
  · exact keeps_bind (note _) fun _ => keeps_pure _

/-- An override keeps what every request keeps. -/
theorem override (hP : Steady P) (requests : List Override) :
    Keeps (InStore P) (Change.override requests : Recording σ _) := by
  refine keeps_bind (hP.planOverrides _ _) fun plans => ?_
  refine keeps_bind (keeps_mapM hP.applyOverridePlan _) fun report => ?_
  exact keeps_bind (hP.ask _) fun _ => keeps_pure _

end Steady

end LayoutGraph
