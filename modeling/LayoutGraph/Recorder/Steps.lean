-- Writing the steps of a survey. Each step names symbols by natural key; the
-- memo turns the keys into the row ids of this store.
import LayoutGraph.Recorder.Merge
import LayoutGraph.Survey.Step

namespace LayoutGraph.Recording

open Survey (Step FieldStep)

variable {σ : Type} [Store σ]

/-- What all rows of a pass have in common. -/
structure Setting where
  origin : OriginId
  littleEndian : Bool

/-- The row of a symbol key. A key that this pass has not written is written now. -/
def symbolId (setting : Setting) (key : SymbolKey) : Recording σ SymbolId := do
  match (← get).memo.symbols.find? key with
  | some id => return id
  | none => return (← symbol ⟨setting.origin, key.name, key.byteSize⟩).id

/-- The axes of a new array field, the outermost as number zero. -/
def writeDimensions (list : ListId) (extents : List Nat) : Recording σ Unit :=
  extents.zipIdx.forM fun (extent, order) => do
    let _ ← ask (.insertDimension list order extent)

/-- The list for the axes of an array field; other fields have none. -/
def listFor (extents : List Nat) : Recording σ (Option ListId) := do
  if extents.isEmpty then return none else return some (← ask .allocateList)

/-- A field. The axes are written only for a field that is new, so a field that is reused
keeps the axes that it has. -/
def writeField (setting : Setting) (step : FieldStep) : Recording σ Unit := do
  let owner ← symbolId setting step.owner
  let type ← symbolId setting step.type
  let dimensions ← listFor step.extents
  let inserted ← field
    { owner, name := step.name, byteOffset := step.byteOffset, type, dimensions
      littleEndian := setting.littleEndian, bitSize := step.bitSize, bitOffset := step.bitOffset
      pointerDepth := step.pointerDepth }
  match inserted, dimensions with
  | .created _, some list => writeDimensions list step.extents
  | _, _ => pure ()

def writeStep (setting : Setting) : Step → Recording σ Unit
  | .visit entry name => note (.visiting entry name)
  | .symbol key => do
    let _ ← symbol ⟨setting.origin, key.name, key.byteSize⟩
  | .field step => writeField setting step
  | .enumerator key constant => do
    let id ← symbolId setting key
    enumerator id constant.name constant.value

def writeSteps (setting : Setting) (steps : List Step) : Recording σ Unit :=
  steps.forM (writeStep setting)

end LayoutGraph.Recording
