-- Every way in which reading debug information, writing the graph or
-- changing it can fail. A failure is a cause; its wording is in one place.
import LayoutGraph.Entry
import LayoutGraph.Dwarf.Fault
import LayoutGraph.Object.Fault

namespace LayoutGraph

/-! ## Causes within one part -/

/-- Why an input gives no entries. -/
inductive Unavailable
  | unreadableFile (path : String) (defect : Object.FileDefect)
  | unreadableSection (name : String) (defect : Object.SectionDefect)
  | noDebugInfo (path : String)
  | malformed (fault : Dwarf.Fault)
  | stated (text : String)
deriving DecidableEq, Repr, Inhabited

def Unavailable.text : Unavailable → String
  | .unreadableFile path defect => "failed to parse " ++ path ++ ": " ++ defect.text
  | .unreadableSection name defect => "failed to read " ++ name ++ ": " ++ defect.text
  | .noDebugInfo path => path ++ " has no DWARF debug information"
  | .malformed fault => fault.text
  | .stated text => text

/-- Why a store refuses a request, natural keys apart. -/
inductive StoreFault
  | outOfRange (column : String) (value : Nat)
  | danglingReference
  | notADatabase
  | cannotOpen (name : String)
  | zeroInName (place : Nat)
  | unknownHost (given : String)
  | unknownSystem (given : String)
  | unknownMode (kind given : String)
  | refusedMode (given : String)
  | unreadable
  | notWritable
  | injected (method : String)
  | lostRow (entity key : String)
  | missingType (symbol field : String) (type : Int)
  | stated (text : String)
deriving DecidableEq, Repr, Inhabited

def StoreFault.text : StoreFault → String
  | .outOfRange column value =>
    column ++ " value " ++ toString value ++ " does not fit in SQLite INTEGER"
  | .danglingReference => "FOREIGN KEY constraint failed"
  | .notADatabase => "file is not a database"
  | .cannotOpen name => "unable to open database file: " ++ name
  | .zeroInName place => "nul byte found in provided data at position: " ++ toString place
  | .unknownHost given => "invalid uri authority: " ++ given
  | .unknownSystem given => "no such vfs: " ++ given
  | .unknownMode kind given => "no such " ++ kind ++ " mode: " ++ given
  | .refusedMode given => "access mode not allowed: " ++ given
  | .unreadable => "disk I/O error"
  | .notWritable => "attempt to write a readonly database"
  | .injected method => "injected " ++ method
  | .lostRow entity key => entity ++ " " ++ key ++ " conflicted but no existing row could be found"
  | .missingType symbol field type =>
    "field " ++ symbol ++ "." ++ field ++ " refers to missing symbol " ++ toString type
  | .stated text => text

/-- Why a list of remaps is refused. -/
inductive RemapFault
  | notAPair (given : String)
  | emptyName (given : String)
  | repeated (name : String)
  | ontoItself (name : String)
  | stated (text : String)
deriving DecidableEq, Repr, Inhabited

def RemapFault.text : RemapFault → String
  | .notAPair given => "expected OLD=NEW, got '" ++ given ++ "'"
  | .emptyName given => "empty symbol name in '" ++ given ++ "'"
  | .repeated name => "'" ++ name ++ "' is remapped more than once"
  | .ontoItself name => "'" ++ name ++ "' is remapped onto itself"
  | .stated text => text

/-- Why a list of overrides is refused. -/
inductive OverrideFault
  | notAPath (given : String)
  | emptyPart (given : String)
  | notAConstant (given : String)
  | repeated (symbol field : String)
  | emptyTypeName (symbol field : String)
  | emptyEnumName (symbol field : String)
  | noConstants (symbol field : String)
  | repeatedConstant (name symbol field : String)
  | noType
  | stated (text : String)
deriving DecidableEq, Repr, Inhabited

def OverrideFault.text : OverrideFault → String
  | .notAPath given => "expected SYMBOL.FIELD, got '" ++ given ++ "'"
  | .emptyPart given => "empty symbol or field name in '" ++ given ++ "'"
  | .notAConstant given => "expected NAME=VALUE, got '" ++ given ++ "'"
  | .repeated symbol field => symbol ++ "." ++ field ++ " is overridden more than once"
  | .emptyTypeName symbol field => "empty type name for " ++ symbol ++ "." ++ field
  | .emptyEnumName symbol field => "empty enumeration name for " ++ symbol ++ "." ++ field
  | .noConstants symbol field => "enumeration for " ++ symbol ++ "." ++ field ++ " has no constants"
  | .repeatedConstant name symbol field =>
    "constant '" ++ name ++ "' appears twice for " ++ symbol ++ "." ++ field
  | .noType => "--type is required"
  | .stated text => text

/-- What the system answers when a file cannot be used. -/
inductive IoFault
  | notFound
  | exists
  | notADirectory
  | isADirectory
  | nameTooLong
  | zeroInName
  | stated (text : String)
deriving DecidableEq, Repr, Inhabited

def IoFault.text : IoFault → String
  | .notFound => "No such file or directory (os error 2)"
  | .exists => "File exists (os error 17)"
  | .notADirectory => "Not a directory (os error 20)"
  | .isADirectory => "Is a directory (os error 21)"
  | .nameTooLong => "File name too long (os error 36)"
  | .zeroInName => "file name contained an unexpected NUL byte"
  | .stated text => text

/-- The arithmetic that leaves 64 bits. -/
inductive Arithmetic
  | add
  | multiply
  | negate
deriving DecidableEq, Repr, Inhabited

/-! ## Failures -/

inductive Failure
  /-- The input gives no entries. -/
  | unavailable (cause : Unavailable)
  /-- A reference names an entry that the input does not have. -/
  | unresolved (entry : EntryId)
  /-- A chain of references is longer than a pass follows. -/
  | tooDeep (entry : EntryId) (limit : Nat)
  /-- A store reports a taken natural key and cannot name the row. -/
  | conflict (entity key : String)
  /-- A store fails for a reason apart from natural keys. -/
  | store (fault : StoreFault)
  /-- A pass was asked for before a store was bound. -/
  | unbound
  | unknownSymbol (name : String)
  | unknownField (symbol field : String)
  | invalidRemap (fault : RemapFault)
  | invalidOverride (fault : OverrideFault)
  | io (fault : IoFault)
  /-- A number left its 64 bits: nothing recovers from it or reports it on the way. -/
  | overflow (operation : Arithmetic)
deriving DecidableEq, Repr, Inhabited

namespace Failure

/-- The failure of a fault in debug sections. A place in a table that is no word of 64 bits is an
overflow, whatever was being read. -/
def ofFault (fault : Dwarf.Fault) : Failure :=
  if fault.defect = .placeOverflow then .overflow .multiply else .unavailable (.malformed fault)

/-- The wording of a failure. -/
def message : Failure → String
  | .unavailable cause => "Debug information unavailable: " ++ cause.text
  | .unresolved entry => "Unresolved type reference to entry " ++ entry.text
  | .tooDeep entry limit =>
    "Type reference chain at entry " ++ entry.text ++ " exceeds depth " ++ toString limit
  | .conflict entity key => "Store conflict on " ++ entity ++ " with key " ++ key
  | .store fault => "Graph store error: " ++ fault.text
  | .unbound => "No graph store bound to this Juicer"
  | .unknownSymbol name => "Unknown symbol: " ++ name
  | .unknownField symbol field => "Symbol " ++ symbol ++ " has no field " ++ field
  | .invalidRemap fault => "Invalid remap: " ++ fault.text
  | .invalidOverride fault => "Invalid override: " ++ fault.text
  | .io fault => "IO error: " ++ fault.text
  | .overflow .add => "attempt to add with overflow"
  | .overflow .multiply => "attempt to multiply with overflow"
  | .overflow .negate => "attempt to negate with overflow"

end Failure

/-! ## The status of a pass -/

/-- How a pass ended, in one word for its caller. -/
inductive Status
  | ok
  /-- The input could not be read, or its types could not be resolved. -/
  | parseError
  /-- The store failed, or there was none. -/
  | storeError
deriving DecidableEq, Repr, Inhabited

namespace Status

/-- A failure of the input is a parse error, every other a store error. -/
def ofFailure : Failure → Status
  | .unavailable _ | .unresolved _ | .tooDeep .. | .io _ => .parseError
  | _ => .storeError

def text : Status → String
  | .ok => "ok"
  | .parseError => "parse error"
  | .storeError => "store error"

def isOk (s : Status) : Bool := s = .ok

end Status

end LayoutGraph
