-- The types of one input, decoded once. A declaration is answered with the
-- definition of its kind and name, where the input has one.
import LayoutGraph.Dwarf.Decode
import LayoutGraph.Source.Reach

namespace LayoutGraph

/-! ## Declarations and definitions -/

/-- The kinds of type that can be declared in one place and defined in another. -/
inductive DefinitionKind
  | compound (kind : CompoundKind)
  | enumeration
deriving DecidableEq, Repr, Inhabited

namespace Entry

def definitionKind? (e : Entry) : Option DefinitionKind :=
  match e.kind with
  | .compound kind _ _ => some (.compound kind)
  | .enumeration _ => some .enumeration
  | _ => none

/-- An entry that only names a type. An enumeration is one if it has no size and no constants. -/
def isDeclaration (e : Entry) : Bool :=
  match e.kind with
  | .compound _ _ declaration => declaration
  | .enumeration constants => e.byteSize.isNone && constants.isEmpty
  | _ => false

/-- Whether the entry defines the type of a kind and a name. -/
def defines (kind : DefinitionKind) (name : String) (e : Entry) : Bool :=
  e.definitionKind? = some kind && e.name = some name && name ≠ "" && !e.isDeclaration

end Entry

/-! ## Images -/

structure Image where
  origin : String
  littleEndian : Bool
  /-- The entries, of which no two have the same id. -/
  entries : List Entry
  topLevel : List EntryId
deriving Repr, Inhabited

namespace Image

/-- The entry with an id, as it was decoded. -/
def decoded? (image : Image) (id : EntryId) : Option Entry :=
  image.entries.find? fun e => e.id = id

/-- The entry with the lower id. -/
def lower (best : Option Entry) (e : Entry) : Option Entry :=
  match best with
  | some b => if e.id.raw < b.id.raw then some e else some b
  | none => some e

/-- The definition of a kind and a name: of several, the one with the lowest id. -/
def definition? (image : Image) (kind : DefinitionKind) (name : String) : Option Entry :=
  (image.entries.filter (Entry.defines kind name)).foldl lower none

/-- The definition that answers for an entry: its own type's if the entry is a declaration and there
is one, otherwise the entry. -/
def answer (image : Image) (e : Entry) : Entry :=
  match e.isDeclaration, e.definitionKind?, e.name with
  | true, some kind, some name => (image.definition? kind name).getD e
  | _, _, _ => e

/-- The entry that answers for an id. -/
def find? (image : Image) (id : EntryId) : Option Entry := (image.decoded? id).map image.answer

def toSource (image : Image) : Source :=
  { origin := image.origin
    littleEndian := image.littleEndian
    topLevel := image.topLevel
    find? := image.find? }

/-- The ids that a pass over the image can come to, in ascending order. Each id is expanded once and
each expansion follows the references of one entry. -/
def reach (image : Image) : List EntryId :=
  let references := (image.entries.map fun e => e.references.length).foldl (· + ·) 0
  image.toSource.reach (image.topLevel.length + (image.entries.length + 1) * (references + 1))

/-- The image of decoded types. -/
def ofContents (origin : String) (littleEndian : Bool) (contents : Dwarf.Contents) : Image :=
  { origin, littleEndian
    entries := contents.types.map Prod.fst
    topLevel := (contents.types.filter Prod.snd).map fun t => t.1.id }

/-- The image of debug sections, and what its decoding left in the log. -/
def ofSections (origin : String) (littleEndian : Bool) (sections : Dwarf.Sections) :
    Except Failure Image × List Log.Event :=
  match sections.decode with
  | (.error fault, log) => (.error (.ofFault fault), log)
  | (.ok contents, log) =>
    let image := ofContents origin littleEndian contents
    let summary := .decoded origin contents.unitCount image.entries.length image.topLevel.length
    (.ok image, log ++ [summary])

end Image

end LayoutGraph
