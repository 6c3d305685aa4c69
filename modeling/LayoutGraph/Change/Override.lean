-- Overrides: one field of one symbol is given a replacement type, which is a
-- named type or an enumeration. All requests are checked before anything is
-- written. The replacement is as large as the type before it and belongs to
-- the origin of the field's symbol.
import LayoutGraph.Recorder.Merge
import LayoutGraph.Text.Blank

namespace LayoutGraph.Change

open Recording

/-! ## Requests and reports -/

inductive Replacement
  | named (name : String)
  /-- Without a name the enumeration is named by the path of the field. -/
  | enumeration (name : Option String) (constants : List Constant)
deriving DecidableEq, Repr, Inhabited

structure Override where
  symbol : String
  field : String
  replacement : Replacement
deriving DecidableEq, Repr, Inhabited

/-- What one override did. -/
structure Overridden where
  request : Override
  typeName : String
  previous : SymbolId
  replacement : SymbolId
  enumeratorsCreated : Nat
deriving DecidableEq, Repr, Inhabited

namespace Override

/-- The name of the replacement's symbol. -/
def typeName (o : Override) : String :=
  match o.replacement with
  | .named name | .enumeration (some name) _ => name
  | .enumeration none _ => o.symbol ++ "." ++ o.field

def constants (o : Override) : List Constant :=
  match o.replacement with
  | .named _ => []
  | .enumeration _ constants => constants

end Override

/-! ## Checking -/

/-- The first name that stands twice in a list. -/
def firstRepeated? : List String → Option String
  | [] => none
  | names => go [] names
where
  go (seen : List String) : List String → Option String
    | [] => none
    | name :: rest => if name ∈ seen then some name else go (name :: seen) rest

/-- What is wrong with a replacement, whatever the graph holds. -/
def replacementFault? (o : Override) : Option OverrideFault :=
  match o.replacement with
  | .named name => if Text.isBlankText name then some (.emptyTypeName o.symbol o.field) else none
  | .enumeration name constants =>
    if name.any Text.isBlankText then some (.emptyEnumName o.symbol o.field)
    else if constants = [] then some (.noConstants o.symbol o.field)
    else
      (firstRepeated? (constants.map Constant.name)).map fun c =>
        .repeatedConstant c o.symbol o.field

/-- A request whose field is found. -/
structure OverridePlan where
  request : Override
  owner : Symbol
  field : Field
  previous : Symbol
deriving Repr, Inhabited

variable {σ : Type} [Store σ]

/-- Finds the field of a request. Of several symbols of the name the one with the lowest id
is meant. -/
def locate (o : Override) : Recording σ OverridePlan := do
  match ← ask (.symbolsNamed o.symbol) with
  | [] => throw (.unknownSymbol o.symbol)
  | owner :: _ =>
    match ← ask (.findField ⟨owner.id, o.field⟩) with
    | none => throw (.unknownField o.symbol o.field)
    | some id =>
      match ← ask (.fieldById id) with
      | none => throw (.unknownField o.symbol o.field)
      | some field =>
        match ← ask (.symbolById field.type) with
        | none => throw (.store (.missingType o.symbol o.field field.type.raw))
        | some previous => return ⟨o, owner, field, previous⟩

/-- A request after those whose symbols and fields are `seen`. -/
def planOverride (seen : List (String × String)) (o : Override) : Recording σ OverridePlan := do
  if (o.symbol, o.field) ∈ seen then throw (.invalidOverride (.repeated o.symbol o.field))
  match replacementFault? o with
  | some fault => throw (.invalidOverride fault)
  | none => locate o

def planOverrides (seen : List (String × String)) :
    List Override → Recording σ (List OverridePlan)
  | [] => return []
  | o :: rest => do
    let plan ← planOverride seen o
    let plans ← planOverrides ((o.symbol, o.field) :: seen) rest
    return plan :: plans

/-! ## Writing -/

def applyOverridePlan (plan : OverridePlan) : Recording σ Overridden := do
  let o := plan.request
  let inserted ← Recording.symbol ⟨plan.owner.origin, o.typeName, plan.previous.byteSize⟩
  let before := (← get).memo.tally.enumeratorsCreated
  o.constants.forM fun c => enumerator inserted.id c.name c.value
  let created := (← get).memo.tally.enumeratorsCreated - before
  let found ← ask (.setFieldType plan.field.id inserted.id)
  if !found then throw (.unknownField o.symbol o.field)
  note (.overrode o.symbol o.field plan.previous.name o.typeName created)
  return ⟨o, o.typeName, plan.previous.id, inserted.id, created⟩

/-- Applies overrides in order, after all are checked. -/
def override (requests : List Override) : Recording σ (List Overridden) := do
  let plans ← planOverrides [] requests
  let report ← plans.mapM applyOverridePlan
  ask .commit
  return report

end LayoutGraph.Change
