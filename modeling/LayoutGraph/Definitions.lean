-- The index of definitions: for each kind and name of type the id of the entry
-- that defines it. The index is made in one pass over the entries, whichever
-- order they come in, and a declaration is answered by way of it.
import LayoutGraph.Image
import LayoutGraph.Index

namespace LayoutGraph

/-- Ids of definitions, by the kind and then by the name of the type. -/
structure DefinitionIndex where
  kinds : Index DefinitionKind (Index String EntryId) := {}
deriving Repr, Inhabited

namespace DefinitionIndex

def find? (index : DefinitionIndex) (kind : DefinitionKind) (name : String) : Option EntryId :=
  (index.kinds.find? kind).bind fun names => names.find? name

/-- The index with an id for a kind and a name. Of two ids the lower one stays. -/
def enter (index : DefinitionIndex) (kind : DefinitionKind) (name : String) (id : EntryId) :
    DefinitionIndex :=
  let names := (index.kinds.find? kind).getD {}
  let slot := (names.find? name).getD id
  ⟨index.kinds.insert kind (names.insert name (if id.raw < slot.raw then id else slot))⟩

/-- The index with an entry. Declarations and types without a name are left out. -/
def add (index : DefinitionIndex) (e : Entry) : DefinitionIndex :=
  match e.definitionKind?, e.isDeclaration, e.name with
  | some kind, false, some name => if name = "" then index else index.enter kind name e.id
  | _, _, _ => index

def ofEntries (entries : List Entry) : DefinitionIndex := entries.foldl add {}

end DefinitionIndex

namespace Image

/-- The definition that the index has for a declaration. -/
def definitionBy? (image : Image) (index : DefinitionIndex) (e : Entry) : Option Entry :=
  match e.definitionKind?, e.isDeclaration, e.name with
  | some kind, true, some name => (index.find? kind name).bind image.decoded?
  | _, _, _ => none

/-- The entry that answers for an id. An id that was not decoded is an unresolved reference. -/
def entryBy (image : Image) (index : DefinitionIndex) (id : EntryId) : Except Failure Entry :=
  match image.decoded? id with
  | some e => .ok ((image.definitionBy? index e).getD e)
  | none => .error (.unresolved id)

end Image

end LayoutGraph
