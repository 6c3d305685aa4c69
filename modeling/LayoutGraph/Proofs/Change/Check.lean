-- The checks of a remap and of an override. They read and write nothing, so
-- they end in the state they began in: with a plan for each request, or with
-- what is wrong with the first request that offends.
import LayoutGraph.Proofs.Recorder.Agreement
import LayoutGraph.Proofs.Store.Serving

namespace LayoutGraph

open Chain Recording

/-! ## Requests that are in order -/

/-- A symbol has the name. -/
def Graph.HasSymbol (g : Graph) (name : String) : Prop := ∃ s ∈ g.symbols, s.name = name

namespace Change

/-- The old names differ, no name is mapped to itself, and all names have symbols. -/
structure Remappable (g : Graph) (mappings : List Mapping) : Prop where
  once : (mappings.map Mapping.old).Nodup
  moves : ∀ m ∈ mappings, m.old ≠ m.new
  oldNames : ∀ m ∈ mappings, g.HasSymbol m.old
  newNames : ∀ m ∈ mappings, g.HasSymbol m.new

/-- What is wrong with a mapping that comes after others. -/
inductive Mapping.Offends (g : Graph) (before : List Mapping) (m : Mapping) : Failure → Prop
  | repeated : m.old ∈ before.map Mapping.old → Offends g before m (.invalidRemap (.repeated m.old))
  | ontoItself : m.old ∉ before.map Mapping.old → m.old = m.new →
    Offends g before m (.invalidRemap (.ontoItself m.old))
  | unknownOld : m.old ∉ before.map Mapping.old → m.old ≠ m.new → ¬ g.HasSymbol m.old →
    Offends g before m (.unknownSymbol m.old)
  | unknownNew : m.old ∉ before.map Mapping.old → m.old ≠ m.new → g.HasSymbol m.old →
    ¬ g.HasSymbol m.new → Offends g before m (.unknownSymbol m.new)

namespace Override

/-- The symbol and the field that a request names. -/
def place (o : Override) : String × String := (o.symbol, o.field)

/-- The replacement can be made whatever the graph holds. -/
structure Sensible (o : Override) : Prop where
  typeName : ∀ name, o.replacement = .named name → Text.isBlankText name = false
  enumName : ∀ name constants, o.replacement = .enumeration (some name) constants →
    Text.isBlankText name = false
  constants : ∀ name constants, o.replacement = .enumeration name constants →
    constants ≠ [] ∧ (constants.map Constant.name).Nodup

/-- What is wrong with a replacement whatever the graph holds. -/
inductive Faulty (o : Override) : OverrideFault → Prop
  | typeName {name : String} : o.replacement = .named name → Text.isBlankText name = true →
    Faulty o (.emptyTypeName o.symbol o.field)
  | enumName {name : String} {constants : List Constant} :
    o.replacement = .enumeration (some name) constants → Text.isBlankText name = true →
    Faulty o (.emptyEnumName o.symbol o.field)
  | noConstants {name : Option String} : o.replacement = .enumeration name [] →
    name.any Text.isBlankText = false → Faulty o (.noConstants o.symbol o.field)
  | repeatedConstant {name : Option String} {constants : List Constant} {before : List String}
    {constant : String} {rest : List String} : o.replacement = .enumeration name constants →
    name.any Text.isBlankText = false →
    constants.map Constant.name = before ++ constant :: rest → before.Nodup → constant ∈ before →
    Faulty o (.repeatedConstant constant o.symbol o.field)

/-- What is wrong with a request that comes after others. -/
inductive Offends (g : Graph) (before : List Override) (o : Override) : Failure → Prop
  | repeated : o.place ∈ before.map place →
    Offends g before o (.invalidOverride (.repeated o.symbol o.field))
  | replacement {fault : OverrideFault} : o.place ∉ before.map place → o.Faulty fault →
    Offends g before o (.invalidOverride fault)
  | unknownSymbol : o.place ∉ before.map place → o.Sensible → ¬ g.HasSymbol o.symbol →
    Offends g before o (.unknownSymbol o.symbol)
  | unknownField {owner : Symbol} : o.place ∉ before.map place → o.Sensible →
    g.Lowest o.symbol owner → (∀ f ∈ g.fields, f.key ≠ ⟨owner.id, o.field⟩) →
    Offends g before o (.unknownField o.symbol o.field)

end Override

/-- The requests name different fields, their replacements can be made, and each field exists on
the symbol with the lowest id of its name. -/
structure Overridable (g : Graph) (requests : List Override) : Prop where
  once : (requests.map Override.place).Nodup
  sensible : ∀ o ∈ requests, o.Sensible
  fields : ∀ o ∈ requests, ∃ owner, g.Lowest o.symbol owner ∧
    ∃ f ∈ g.fields, f.key = ⟨owner.id, o.field⟩

/-! ## Plans -/

/-- The plan has found the symbols of the names of its mapping. -/
structure RemapPlan.Fits (g : Graph) (plan : RemapPlan) : Prop where
  moves : plan.mapping.old ≠ plan.mapping.new
  known : g.HasSymbol plan.mapping.old
  sources : plan.sources = (g.symbolsNamed plan.mapping.old).map Symbol.id
  target : ∃ s, g.Lowest plan.mapping.new s ∧ plan.target = s.id

/-- The plan has found the owner of its request, the field and the type of the field. -/
structure OverridePlan.Fits (g : Graph) (plan : OverridePlan) : Prop where
  sensible : plan.request.Sensible
  owner : g.Lowest plan.request.symbol plan.owner
  field : plan.field ∈ g.fields
  key : plan.field.key = ⟨plan.owner.id, plan.request.field⟩
  previous : plan.previous ∈ g.symbols
  type : plan.previous.id = plan.field.type

/-! ## Lists of requests -/

/-- A key that came before comes twice. -/
theorem not_nodup_of_seen {α κ : Type} {key : α → κ} {before rest : List α} {a : α}
    (h : key a ∈ before.map key) : ¬ ((before ++ a :: rest).map key).Nodup := by
  intro once
  rw [List.map_append] at once
  have apart := (List.nodup_append.mp once).2.2
  exact apart _ h _ List.mem_cons_self rfl

section

variable {σ α κ β : Type} [DecidableEq κ]

/-- Plans the requests one after another, each with the keys of those before it. -/
def planAll (key : α → κ) (one : List κ → α → Recording σ β) (seen : List κ) :
    List α → Recording σ (List β)
  | [] => return []
  | a :: rest => do
    let plan ← one seen a
    let plans ← planAll key one (key a :: seen) rest
    return plan :: plans

variable {key : α → κ} {one : List κ → α → Recording σ β} {source : β → α} {fits : β → Prop}
  {offends : List α → α → Failure → Prop} {r : Recorder σ}

omit [DecidableEq κ] in
/-- If each request is planned for what it is, then so is the list, up to the first request that
offends. -/
theorem planAll_ends (before requests : List α)
    (once : (before.map key).Nodup)
    (each : ∀ before a, Ends
      (fun plan t => t = r ∧ key a ∉ before.map key ∧ source plan = a ∧ fits plan)
      (fun e t => t = r ∧ offends before a e) (one (before.map key).reverse a r)) :
    Ends
      (fun plans t => t = r ∧ ((before ++ requests).map key).Nodup ∧
        plans.map source = requests ∧ ∀ plan ∈ plans, fits plan)
      (fun e t => t = r ∧ ∃ (plans : List β) (a : α) (rest : List α),
        requests = plans.map source ++ a :: rest ∧
        ((before ++ plans.map source).map key).Nodup ∧ (∀ plan ∈ plans, fits plan) ∧
        offends (before ++ plans.map source) a e)
      (planAll key one (before.map key).reverse requests r) := by
  induction requests generalizing before with
  | nil =>
    refine ⟨rfl, ?_, rfl, nofun⟩
    rw [List.append_nil]
    exact once
  | cons a rest ih =>
    unfold planAll
    refine ends_bind ((each before a).mono ?_ ?_)
    · rintro plan t ⟨rfl, fresh, rfl, hplan⟩
      have grown : ((before ++ [source plan]).map key).Nodup := by
        rw [List.map_append, List.map_singleton, ← List.concat_eq_append]
        exact once.concat fresh
      have seen : key (source plan) :: (before.map key).reverse =
          ((before ++ [source plan]).map key).reverse := by simp
      rw [seen]
      refine ends_bind ((ih (before ++ [source plan]) grown).mono ?_ ?_)
      · rintro plans t ⟨rfl, all, rfl, hplans⟩
        rw [List.append_assoc] at all
        exact ⟨rfl, all, rfl, List.forall_mem_cons.mpr ⟨hplan, hplans⟩⟩
      · rintro e t ⟨rfl, plans, b, rest', rfl, all, hplans, hb⟩
        rw [List.append_assoc] at all hb
        exact ⟨rfl, plan :: plans, b, rest', rfl, all, List.forall_mem_cons.mpr ⟨hplan, hplans⟩, hb⟩
    · rintro e t ⟨rfl, ha⟩
      refine ⟨rfl, [], a, rest, rfl, ?_, nofun, ?_⟩
      · rw [List.map_nil, List.append_nil]
        exact once
      · rw [List.map_nil, List.append_nil]
        exact ha

end

/-! ## Checking mappings -/

section

variable {s : AnyStore} {r : Recorder AnyStore}

/-- A request that the store answers as it stays. -/
theorem ask_same {α : Type} {request : Request α} {reply : α}
    (h : Store.serve request r.store = .ok reply r.store) : ask request r = .ok reply r :=
  ask_of_ok h

theorem planMappings_eq (seen : List String) (mappings : List Mapping) :
    (planMappings seen mappings : Recording AnyStore _) =
      planAll Mapping.old planMapping seen mappings := by
  induction mappings generalizing seen with
  | nil => rfl
  | cons m rest ih =>
    unfold planMappings planAll
    rw [ih]

theorem hasSymbol_of_symbolsNamed {g : Graph} {name : String} (h : g.symbolsNamed name ≠ []) :
    g.HasSymbol name := by
  obtain ⟨x, hx⟩ := List.exists_mem_of_ne_nil _ h
  exact ⟨x, Graph.mem_symbolsNamed.mp hx⟩

theorem not_hasSymbol_of_symbolsNamed {g : Graph} {name : String} (h : g.symbolsNamed name = []) :
    ¬ g.HasSymbol name := by
  rintro ⟨x, hx⟩
  have hmem := Graph.mem_symbolsNamed.mpr hx
  rw [h] at hmem
  cases hmem

theorem planMapping_ends (sound : r.store.Sound) (before : List Mapping) (m : Mapping) :
    Ends
      (fun plan t => t = r ∧ m.old ∉ before.map Mapping.old ∧ plan.mapping = m ∧
        plan.Fits r.store.graph)
      (fun e t => t = r ∧ m.Offends r.store.graph before e)
      (planMapping (before.map Mapping.old).reverse m r) := by
  unfold planMapping
  by_cases hseen : m.old ∈ before.map Mapping.old
  · rw [if_pos (List.mem_reverse.mpr hseen)]
    exact ⟨rfl, .repeated hseen⟩
  rw [if_neg fun h => hseen (List.mem_reverse.mp h)]
  by_cases hsame : m.old = m.new
  · rw [if_pos hsame]
    exact ⟨rfl, .ontoItself hseen hsame⟩
  rw [if_neg hsame]
  dsimp only [pure_bind]
  rw [bind_of_ok (ask_same (AnyStore.serve_symbolsNamed r.store m.old))]
  by_cases hold : r.store.graph.symbolsNamed m.old = []
  · rw [hold]
    exact ⟨rfl, .unknownOld hseen hsame (not_hasSymbol_of_symbolsNamed hold)⟩
  have known := hasSymbol_of_symbolsNamed hold
  rw [if_neg (by simpa using hold)]
  rw [bind_of_ok (ask_same (AnyStore.serve_symbolsNamed r.store m.new))]
  cases hnew : r.store.graph.symbolsNamed m.new with
  | nil => exact ⟨rfl, .unknownNew hseen hsame known (not_hasSymbol_of_symbolsNamed hnew)⟩
  | cons target rest =>
    have target : r.store.graph.Lowest m.new target := sound.ordered.lowest_of_first hnew
    exact ⟨rfl, hseen, rfl, ⟨hsame, known, rfl, _, target, rfl⟩⟩

theorem remappable_of_fits {g : Graph} {plans : List RemapPlan}
    (once : ((plans.map RemapPlan.mapping).map Mapping.old).Nodup)
    (fits : ∀ plan ∈ plans, plan.Fits g) : Remappable g (plans.map RemapPlan.mapping) where
  once := once
  moves := List.forall_mem_map.mpr fun plan h => (fits plan h).moves
  oldNames := List.forall_mem_map.mpr fun plan h => (fits plan h).known
  newNames := by
    refine List.forall_mem_map.mpr fun plan h => ?_
    obtain ⟨target, htarget, -⟩ := (fits plan h).target
    exact ⟨target, htarget.mem, htarget.named⟩

/-- A remap is planned when its mappings are in order, and stops at the first that offends. -/
theorem planMappings_ends (sound : r.store.Sound) (mappings : List Mapping) :
    Ends
      (fun plans t => t = r ∧ Remappable r.store.graph mappings ∧
        plans.map RemapPlan.mapping = mappings ∧ ∀ plan ∈ plans, plan.Fits r.store.graph)
      (fun e t => t = r ∧ ∃ before m rest, mappings = before ++ m :: rest ∧
        Remappable r.store.graph before ∧ m.Offends r.store.graph before e)
      (planMappings [] mappings r) := by
  rw [planMappings_eq]
  have planned := planAll_ends [] mappings List.nodup_nil (planMapping_ends sound)
  refine planned.mono ?_ ?_
  · rintro plans t ⟨rfl, once, rfl, fits⟩
    exact ⟨rfl, remappable_of_fits once fits, rfl, fits⟩
  · rintro e t ⟨rfl, plans, m, rest, rfl, once, fits, offends⟩
    exact ⟨rfl, _, m, rest, rfl, remappable_of_fits once fits, offends⟩

/-- Mappings of which one offends are not in order. -/
theorem Mapping.Offends.not_remappable {g : Graph} {before : List Mapping} {m : Mapping}
    {e : Failure} (h : m.Offends g before e) (rest : List Mapping) :
    ¬ Remappable g (before ++ m :: rest) := by
  intro ok
  have hm : m ∈ before ++ m :: rest := List.mem_append_right _ List.mem_cons_self
  cases h with
  | repeated hseen => exact not_nodup_of_seen hseen ok.once
  | ontoItself _ hsame => exact ok.moves m hm hsame
  | unknownOld _ _ hold => exact hold (ok.oldNames m hm)
  | unknownNew _ _ _ hnew => exact hnew (ok.newNames m hm)

end

/-! ## Checking overrides -/

/-- The scan of names finds the first that stands before, if there is one. -/
theorem firstRepeated?_go (before names : List String) (once : before.Nodup) :
    (firstRepeated?.go before.reverse names = none ∧ (before ++ names).Nodup) ∨
      ∃ more name rest, firstRepeated?.go before.reverse names = some name ∧
        names = more ++ name :: rest ∧ (before ++ more).Nodup ∧ name ∈ before ++ more := by
  induction names generalizing before with
  | nil =>
    rw [List.append_nil]
    exact .inl ⟨rfl, once⟩
  | cons name rest ih =>
    unfold firstRepeated?.go
    by_cases hseen : name ∈ before
    · rw [if_pos (List.mem_reverse.mpr hseen)]
      refine .inr ⟨[], name, rest, rfl, rfl, ?_, ?_⟩
      · rw [List.append_nil]
        exact once
      · rw [List.append_nil]
        exact hseen
    · rw [if_neg fun h => hseen (List.mem_reverse.mp h)]
      have grown : (before ++ [name]).Nodup := List.concat_eq_append ▸ once.concat hseen
      have seen : name :: before.reverse = (before ++ [name]).reverse := by simp
      rw [seen]
      rcases ih (before ++ [name]) grown with
        ⟨hnone, all⟩ | ⟨more, again, rest, hsome, rfl, all, held⟩
      · rw [List.append_assoc] at all
        exact .inl ⟨hnone, all⟩
      · rw [List.append_assoc] at all held
        exact .inr ⟨name :: more, again, rest, hsome, rfl, all, held⟩

theorem firstRepeated?_cases (names : List String) :
    (firstRepeated? names = none ∧ names.Nodup) ∨
      ∃ before name rest, firstRepeated? names = some name ∧
        names = before ++ name :: rest ∧ before.Nodup ∧ name ∈ before := by
  cases names with
  | nil => exact .inl ⟨rfl, .nil⟩
  | cons name rest => exact firstRepeated?_go [] (name :: rest) .nil

section

variable {o : Override}

theorem sensible_of_named {name : String} (h : o.replacement = .named name)
    (nonblank : Text.isBlankText name = false) : o.Sensible := by
  constructor
  · intro other hother
    cases h.symm.trans hother
    exact nonblank
  · intro other constants hother
    cases h.symm.trans hother
  · intro other constants hother
    cases h.symm.trans hother

theorem sensible_of_enumeration {name : Option String} {constants : List Constant}
    (h : o.replacement = .enumeration name constants)
    (nonblank : name.any Text.isBlankText = false) (filled : constants ≠ [])
    (once : (constants.map Constant.name).Nodup) : o.Sensible := by
  constructor
  · intro other hother
    cases h.symm.trans hother
  · intro other constants hother
    cases h.symm.trans hother
    exact nonblank
  · intro other constants hother
    cases h.symm.trans hother
    exact ⟨filled, once⟩

/-- The check of a replacement finds what is wrong with it. -/
theorem replacementFault?_cases (o : Override) :
    (replacementFault? o = none ∧ o.Sensible) ∨
      ∃ fault, replacementFault? o = some fault ∧ o.Faulty fault := by
  unfold replacementFault?
  cases hreplacement : o.replacement with
  | named name =>
    dsimp only
    by_cases hblank : Text.isBlankText name = true
    · rw [if_pos hblank]
      exact .inr ⟨_, rfl, .typeName hreplacement hblank⟩
    · rw [if_neg hblank]
      exact .inl ⟨rfl, sensible_of_named hreplacement (Bool.not_eq_true _ ▸ hblank)⟩
  | enumeration name constants =>
    dsimp only
    by_cases hblank : name.any Text.isBlankText = true
    · rw [if_pos hblank]
      cases name with
      | none => cases hblank
      | some name => exact .inr ⟨_, rfl, .enumName hreplacement hblank⟩
    rw [if_neg hblank]
    have nonblank : name.any Text.isBlankText = false := by simpa using hblank
    by_cases hempty : constants = []
    · rw [if_pos hempty]
      exact .inr ⟨_, rfl, .noConstants (hempty ▸ hreplacement) nonblank⟩
    rw [if_neg hempty]
    rcases firstRepeated?_cases (constants.map Constant.name) with
      ⟨hnone, once⟩ | ⟨before, constant, rest, hsome, hsplit, once, held⟩
    · rw [hnone]
      exact .inl ⟨rfl, sensible_of_enumeration hreplacement nonblank hempty once⟩
    · rw [hsome]
      exact .inr ⟨_, rfl, .repeatedConstant hreplacement nonblank hsplit once held⟩

theorem Override.Faulty.not_sensible {fault : OverrideFault} (h : o.Faulty fault) :
    ¬ o.Sensible := by
  intro ok
  cases h with
  | typeName hreplacement hblank => simp [ok.typeName _ hreplacement] at hblank
  | enumName hreplacement hblank => simp [ok.enumName _ _ hreplacement] at hblank
  | noConstants hreplacement _ => exact (ok.constants _ _ hreplacement).1 rfl
  | repeatedConstant hreplacement _ hsplit _ held =>
    have once := (ok.constants _ _ hreplacement).2
    rw [hsplit] at once
    exact (List.nodup_append.mp once).2.2 _ held _ List.mem_cons_self rfl

variable {r : Recorder AnyStore}

/-- In a closed graph the type of a field is found. -/
theorem symbolById?_type {g : Graph} (closed : g.Closed) {f : Field} (h : f ∈ g.fields) :
    ∃ previous, g.symbolById? f.type = some previous :=
  Option.isSome_iff_exists.mp (Mirrors.isSome_symbolById? (closed.types f h))

theorem locate_plans (sound : r.store.Sound) (closed : r.store.graph.Closed)
    (before : List Override) (o : Override) (fresh : o.place ∉ before.map Override.place)
    (sensible : o.Sensible) :
    Ends (fun plan t => t = r ∧ plan.request = o ∧ plan.Fits r.store.graph)
      (fun e t => t = r ∧ o.Offends r.store.graph before e) (locate o r) := by
  unfold locate
  rw [bind_of_ok (ask_same (AnyStore.serve_symbolsNamed r.store o.symbol))]
  cases howners : r.store.graph.symbolsNamed o.symbol with
  | nil =>
    exact ⟨rfl, .unknownSymbol fresh sensible (not_hasSymbol_of_symbolsNamed howners)⟩
  | cons owner others =>
    have owned : r.store.graph.Lowest o.symbol owner := sound.ordered.lowest_of_first howners
    dsimp only
    rw [bind_of_ok (ask_same (sound.findField ⟨owner.id, o.field⟩))]
    cases hfind : r.store.graph.fields.find? fun f => f.key = ⟨owner.id, o.field⟩ with
    | none =>
      exact ⟨rfl, .unknownField fresh sensible owned (Database.fresh_of_find? hfind)⟩
    | some field =>
      obtain ⟨hfield, hkey⟩ := sound.ordered.fields.find?_eq_some.mp hfind
      have hid := sound.ordered.fieldById?_eq_some.mpr ⟨hfield, rfl⟩
      dsimp only [Option.map_some]
      rw [bind_of_ok (ask_same (AnyStore.serve_fieldById r.store field.id)), hid]
      dsimp only
      obtain ⟨previous, hprevious⟩ := symbolById?_type closed hfield
      rw [bind_of_ok (ask_same (AnyStore.serve_symbolById r.store field.type)), hprevious]
      obtain ⟨hmem, htype⟩ := sound.ordered.symbolById?_eq_some.mp hprevious
      exact ⟨rfl, rfl, ⟨sensible, owned, hfield, hkey, hmem, htype⟩⟩

theorem planOverride_plans (sound : r.store.Sound) (closed : r.store.graph.Closed)
    (before : List Override) (o : Override) :
    Ends
      (fun plan t => t = r ∧ o.place ∉ before.map Override.place ∧ plan.request = o ∧
        plan.Fits r.store.graph)
      (fun e t => t = r ∧ o.Offends r.store.graph before e)
      (planOverride (before.map Override.place).reverse o r) := by
  unfold planOverride
  by_cases hseen : o.place ∈ before.map Override.place
  · have hmem : (o.symbol, o.field) ∈ (before.map Override.place).reverse :=
      List.mem_reverse.mpr hseen
    rw [if_pos hmem]
    exact ⟨rfl, .repeated hseen⟩
  have hmem : (o.symbol, o.field) ∉ (before.map Override.place).reverse :=
    fun h => hseen (List.mem_reverse.mp h)
  rw [if_neg hmem]
  dsimp only [pure_bind]
  rcases replacementFault?_cases o with ⟨hnone, sensible⟩ | ⟨fault, hsome, faulty⟩
  · rw [hnone]
    refine (locate_plans sound closed before o hseen sensible).mono ?_ fun _ _ h => h
    rintro plan t ⟨rfl, fits⟩
    exact ⟨rfl, hseen, fits⟩
  · rw [hsome]
    exact ⟨rfl, .replacement hseen faulty⟩

theorem planOverrides_eq (seen : List (String × String)) (requests : List Override) :
    (planOverrides seen requests : Recording AnyStore _) =
      planAll Override.place planOverride seen requests := by
  induction requests generalizing seen with
  | nil => rfl
  | cons o rest ih =>
    unfold planOverrides planAll
    rw [ih]
    rfl

theorem overridable_of_fits {g : Graph} {plans : List OverridePlan}
    (once : ((plans.map OverridePlan.request).map Override.place).Nodup)
    (fits : ∀ plan ∈ plans, plan.Fits g) : Overridable g (plans.map OverridePlan.request) where
  once := once
  sensible := List.forall_mem_map.mpr fun plan h => (fits plan h).sensible
  fields := List.forall_mem_map.mpr fun plan h =>
    ⟨plan.owner, (fits plan h).owner, plan.field, (fits plan h).field, (fits plan h).key⟩

/-- An override is planned when its requests are in order, and stops at the first that offends. -/
theorem planOverrides_plans (sound : r.store.Sound) (closed : r.store.graph.Closed)
    (requests : List Override) :
    Ends
      (fun plans t => t = r ∧ Overridable r.store.graph requests ∧
        plans.map OverridePlan.request = requests ∧ ∀ plan ∈ plans, plan.Fits r.store.graph)
      (fun e t => t = r ∧ ∃ before o rest, requests = before ++ o :: rest ∧
        Overridable r.store.graph before ∧ o.Offends r.store.graph before e)
      (planOverrides [] requests r) := by
  rw [planOverrides_eq]
  have planned := planAll_ends [] requests List.nodup_nil (planOverride_plans sound closed)
  refine planned.mono ?_ ?_
  · rintro plans t ⟨rfl, once, rfl, fits⟩
    exact ⟨rfl, overridable_of_fits once fits, rfl, fits⟩
  · rintro e t ⟨rfl, plans, o, rest, rfl, once, fits, offends⟩
    exact ⟨rfl, _, o, rest, rfl, overridable_of_fits once fits, offends⟩

/-- Requests of which one offends are not in order. -/
theorem Override.Offends.not_overridable {g : Graph} (ordered : g.Ordered)
    {before : List Override} {e : Failure} (h : o.Offends g before e) (rest : List Override) :
    ¬ Overridable g (before ++ o :: rest) := by
  intro ok
  have ho : o ∈ before ++ o :: rest := List.mem_append_right _ List.mem_cons_self
  cases h with
  | repeated hseen => exact not_nodup_of_seen hseen ok.once
  | replacement _ faulty => exact faulty.not_sensible (ok.sensible o ho)
  | unknownSymbol _ _ hnone =>
    obtain ⟨owner, lowest, -⟩ := ok.fields o ho
    exact hnone ⟨owner, lowest.mem, lowest.named⟩
  | unknownField _ _ lowest absent =>
    obtain ⟨owner, lowest', f, hf, hkey⟩ := ok.fields o ho
    cases ordered.lowest_unique lowest lowest'
    exact absent f hf hkey

end

end Change

end LayoutGraph
