-- What is worth a line in the log, and how each such event reads: its
-- level, the part of the program that speaks, its message and its details.
import LayoutGraph.Failure
import LayoutGraph.Graph.Row
import LayoutGraph.Log.Level
import LayoutGraph.Tally

namespace LayoutGraph.Log

/-! ## Details -/

/-- The value of one detail of an event. -/
inductive Value
  | number (n : Int)
  | flag (b : Bool)
  /-- A text that is quoted where values are written for a reader. -/
  | text (s : String)
  /-- A text that stands as it is. -/
  | plain (s : String)
deriving DecidableEq, Repr, Inhabited

/-! ## Events -/

inductive Event
  | visiting (entry : EntryId) (name : String)
  | reusedOrigin (origin : OriginId) (name : String)
  | reusedSymbol (symbol : SymbolId) (key : SymbolKey)
  | createdSymbol (symbol : SymbolId) (key : SymbolKey)
  | createdField (field : FieldId) (key : FieldKey) (byteOffset : Nat)
  /-- An insert named the row that already had the key. -/
  | collided (entity key : String) (existing : Int)
  /-- An insert reported a taken key, and the row was looked up. -/
  | lookedUpAgain (entity key : String) (existing : Int)
  | enumeratorTaken (entity key : String)
  | walking (entries : Nat) (littleEndian : Bool)
  | entryFailed (entry : EntryId) (origin : String) (failure : Failure)
  | passFinished (entries : Nat) (tally : Tally)
  | passFailed (failure : Failure)
  | remapped (old new : String) (target : SymbolId) (fieldsRewritten : Nat)
  | overrode (symbol field previous replacement : String) (enumeratorsCreated : Nat)
  | openedDatabase (path : String)
  | decoded (origin : String) (units entries topLevel : Nat)
  | untypedMember (member : EntryId)
  | unsupportedTypeForm (entry : EntryId) (inTypes : Bool) (unitOffset : Nat)
  | relocationsSkipped (name reason : String)
  | inputsParsed (inputs failed : Nat) (output : String)
deriving DecidableEq, Repr, Inhabited

namespace Event

def level : Event → Level
  | .visiting .. => .trace
  | .reusedOrigin .. | .reusedSymbol .. | .createdSymbol .. | .createdField .. => .debug
  | .collided .. | .lookedUpAgain .. | .enumeratorTaken .. => .warn
  | .walking .. | .passFinished .. => .info
  | .entryFailed .. | .passFailed _ => .error
  | .remapped .. | .overrode .. => .info
  | .openedDatabase _ | .decoded .. => .debug
  | .untypedMember _ | .unsupportedTypeForm .. | .relocationsSkipped .. => .warn
  | .inputsParsed .. => .info

/-- The part of the program that an event comes from, as filters name it. -/
def speaker : Event → String
  | .visiting .. => "juicer_core::juicer::builder"
  | .reusedOrigin .. | .reusedSymbol .. | .createdSymbol .. | .createdField ..
  | .collided .. | .lookedUpAgain .. | .enumeratorTaken .. => "juicer_core::juicer::merge"
  | .walking .. | .entryFailed .. | .passFinished .. | .passFailed _ => "juicer_core::juicer"
  | .remapped .. => "juicer_core::remap"
  | .overrode .. => "juicer_core::overrides"
  | .openedDatabase _ => "juicer_core::store::sqlite"
  | .decoded .. | .relocationsSkipped .. => "juicer_core::dwarf::image"
  | .untypedMember _ | .unsupportedTypeForm .. => "juicer_core::dwarf::extractor"
  | .inputsParsed .. => "juicer"

def message : Event → String
  | .visiting .. => "visiting type entry"
  | .reusedOrigin .. => "reusing origin"
  | .reusedSymbol .. => "reusing symbol"
  | .createdSymbol .. => "created symbol"
  | .createdField .. => "created field"
  | .collided .. => "insert collided with an existing row; reusing it"
  | .lookedUpAgain .. => "store reported a conflict; reusing the existing row"
  | .enumeratorTaken .. => "enumerator already recorded"
  | .walking .. => "walking top-level type entries"
  | .entryFailed .. => "failed to resolve type entry"
  | .passFinished .. => "parse pass finished"
  | .passFailed _ => "parse failed"
  | .remapped .. => "remapped symbol"
  | .overrode .. => "overrode field type"
  | .openedDatabase _ => "opened SQLite graph store"
  | .decoded .. => "decoded DWARF type entries"
  | .untypedMember _ => "skipping member without a type"
  | .unsupportedTypeForm .. => "unsupported DW_AT_type form"
  | .relocationsSkipped .. => "debug relocations not applied"
  | .inputsParsed .. => "parse finished"

/-- The details of a pass's counters. -/
def tallyDetails (t : Tally) : List (String × Value) :=
  [("symbols_created", .number t.symbolsCreated), ("symbols_reused", .number t.symbolsReused),
   ("fields_created", .number t.fieldsCreated), ("fields_reused", .number t.fieldsReused),
   ("enumerators_created", .number t.enumeratorsCreated),
   ("conflicts_recovered", .number t.conflictsRecovered)]

/-- A number as a detail that is written as a text. -/
def plainNumber (n : Int) : Value := .plain (toString n)

/-- Where a unit starts, with the section that it lies in. -/
def unitPlace (inTypes : Bool) (offset : Nat) : String :=
  let kind := if inTypes then "DebugTypesOffset" else "DebugInfoOffset"
  kind ++ "(" ++ kind ++ "(" ++ toString offset ++ "))"

/-- The details in the order in which they are written. -/
def details : Event → List (String × Value)
  | .visiting entry name => [("entry", .plain entry.text), ("name", .text name)]
  | .reusedOrigin origin name => [("origin", plainNumber origin.raw), ("name", .text name)]
  | .reusedSymbol symbol key | .createdSymbol symbol key =>
    [("symbol", plainNumber symbol.raw), ("name", .text key.name),
     ("byte_size", .number key.byteSize)]
  | .createdField field key byteOffset =>
    [("field", plainNumber field.raw), ("owner", plainNumber key.owner.raw),
     ("name", .text key.name), ("offset", .number byteOffset)]
  | .collided entity key existing | .lookedUpAgain entity key existing =>
    [("entity", .text entity), ("key", .text key), ("existing", plainNumber existing)]
  | .enumeratorTaken entity key => [("entity", .text entity), ("key", .plain key)]
  | .walking entries littleEndian =>
    [("entries", .number entries), ("little_endian", .flag littleEndian)]
  | .entryFailed entry origin failure =>
    [("entry", .plain entry.text), ("origin", .text origin), ("error", .plain failure.message)]
  | .passFinished entries tally => ("entries", .number entries) :: tallyDetails tally
  | .passFailed failure => [("error", .plain failure.message)]
  | .remapped old new target fieldsRewritten =>
    [("from", .text old), ("to", .text new), ("target", plainNumber target.raw),
     ("fields_rewritten", .number fieldsRewritten)]
  | .overrode symbol field previous replacement enumeratorsCreated =>
    [("symbol", .plain symbol), ("field", .plain field), ("previous", .plain previous),
     ("replacement", .plain replacement), ("enumerators_created", .number enumeratorsCreated)]
  | .openedDatabase path => [("path", .plain path)]
  | .decoded origin units entries topLevel =>
    [("origin", .plain origin), ("units", .number units), ("entries", .number entries),
     ("top_level", .number topLevel)]
  | .untypedMember member => [("member", .plain member.text)]
  | .unsupportedTypeForm entry inTypes unitOffset =>
    [("entry", .plain entry.text), ("unit", .plain (unitPlace inTypes unitOffset))]
  | .relocationsSkipped name reason => [("section", .text name), ("error", .plain reason)]
  | .inputsParsed inputs failed output =>
    [("inputs", .number inputs), ("failed", .number failed), ("output", .plain output)]

/-- The names of all details, of which the message is one. -/
def detailNames (e : Event) : List String := "message" :: e.details.map Prod.fst

end Event

end LayoutGraph.Log
