-- Where a database is, as its name says. A name is a path, or an address
-- such as `file:graph.db?mode=ro`: a path and options, each of which may
-- hold bytes by their hexadecimal digits. A database may have no file.
import LayoutGraph.Bytes
import LayoutGraph.Failure
import LayoutGraph.Text.Cut
import LayoutGraph.Text.Lossy
import LayoutGraph.Text.Numeral

namespace LayoutGraph

/-- How a database is opened. -/
inductive Access
  /-- The file must be there, and its rows stay as they are. -/
  | read
  /-- The file must be there. -/
  | write
  /-- A file that is not there is made. -/
  | create
  /-- There is no file. -/
  | memory
deriving DecidableEq, Repr, Inhabited

namespace Access

def ofText? : String → Option Access
  | "ro" => some .read
  | "rw" => some .write
  | "rwc" => some .create
  | "memory" => some .memory
  | _ => none

/-- Whether an option may ask for another access. No option asks for more than it was given, but
what has no file may be asked for anything. -/
def admits : Access → Access → Bool
  | .memory, _ | .create, _ | _, .memory => true
  | .write, wanted => wanted ≠ .create
  | .read, wanted => wanted = .read

end Access

structure Location where
  /-- The path of the file. An empty one stands for a file that is gone when it is closed. -/
  path : String
  access : Access := .create
  /-- The file system that is asked for by name. -/
  system : Option String := none
  /-- Whether the file is said never to change. -/
  isFixed : Bool := false
deriving DecidableEq, Repr, Inhabited

namespace Location

/-! ## The pieces of an address -/

/-- The bytes of a piece. A percent sign with two hexadecimal digits is a byte, and the byte zero
ends the piece. -/
def unescape : List Char → List UInt8
  | '%' :: high :: low :: rest =>
    match Text.digit? 16 high, Text.digit? 16 low with
    | some 0, some 0 => []
    | some h, some l => UInt8.ofNat (h * 16 + l) :: unescape rest
    | _, _ => UInt8.ofNat '%'.toNat :: unescape (high :: low :: rest)
  | c :: rest => Bytes.ofText c.toString ++ unescape rest
  | [] => []

def pieceText (cs : List Char) : String := Text.lossy (unescape cs)

/-- What stands before the first `sep`, or all there is. -/
def upTo (sep : Char) (cs : List Char) : List Char × List Char :=
  (Text.cutFirst sep cs).getD (cs, [])

/-- The options, in order, with their values. One without a name is none. -/
def optionsOf (cs : List Char) : List (String × String) :=
  ((Text.pieces '&' cs).map fun piece =>
    let (name, value) := upTo '=' piece
    (pieceText name, pieceText value)).filter fun option => option.1 ≠ ""

/-- Whether a value means yes: a number whose lowest byte is not zero, or a word for it. -/
def isYes (value : String) : Bool :=
  match value.toList.takeWhile Char.isDigit with
  | [] => ["on", "yes", "true"].contains (String.ofList (value.toList.map Char.toLower))
  | digits =>
    let n := (Text.natural? 10 digits).getD 0
    n < 0x80000000 && n % 256 ≠ 0

/-! ## Addresses -/

/-- The path with its options behind the host, which may only be this machine. -/
def afterHost? : List Char → Except StoreFault (List Char)
  | '/' :: '/' :: rest =>
    let host := rest.takeWhile fun c => c ≠ '/'
    if host.isEmpty ∨ String.ofList host = "localhost" then .ok (rest.drop host.length)
    else .error (.unknownHost (String.ofList host))
  | cs => .ok cs

/-- The location under one more option. Unknown options say nothing. -/
def under (l : Location) : String × String → Except StoreFault Location
  | ("vfs", name) => .ok { l with system := some name }
  | ("cache", word) =>
    if word = "shared" ∨ word = "private" then .ok l else .error (.unknownMode "cache" word)
  | ("mode", word) =>
    match Access.ofText? word with
    | none => .error (.unknownMode "access" word)
    | some access =>
      if l.access.admits access then .ok { l with access } else .error (.refusedMode word)
  | _ => .ok l

/-- The file systems on disk. -/
def diskSystems : List String := ["unix", "unix-none", "unix-dotfile", "unix-excl"]

/-- The file system in memory. -/
def memorySystem : String := "memdb"

def checkSystem (l : Location) : Except StoreFault Location :=
  match l.system.filter fun name => !(memorySystem :: diskSystems).contains name with
  | some name => .error (.unknownSystem name)
  | none => .ok l

/-- The location of an address, without the `file:` in front. What follows a number sign counts for
nothing. -/
def ofAddress (cs : List Char) : Except StoreFault Location := do
  let (told, _) := upTo '#' (← afterHost? cs)
  let (path, options) := upTo '?' told
  let options := optionsOf options
  let isFixed := (options.lookup "immutable").any isYes
  checkSystem (← options.foldlM under { path := pieceText path, isFixed })

/-- The location that a name says. No name holds the character zero. -/
def ofName (name : String) : Except StoreFault Location :=
  match Text.cutFirst '\x00' name.toList with
  | some (before, _) => .error (.zeroInName (Bytes.ofText (String.ofList before)).length)
  | none =>
    match Text.dropLead? "file:".toList name.toList with
    | some address => ofAddress address
    | none => .ok { path := name }

/-! ## What a location means -/

/-- The path of a database that has no file. -/
def inMemory : String := ":memory:"

/-- Whether a file system is asked for a file. -/
def hasName (l : Location) : Bool := l.path ≠ "" && l.path ≠ inMemory && l.access ≠ .memory

/-- The path of the file, if rows are saved in one. -/
def file? (l : Location) : Option String :=
  if l.hasName ∧ l.system ≠ some memorySystem then some l.path else none

/-- Whether rows can be written. -/
def mayWrite (l : Location) : Bool := l.access ≠ .read && !(l.isFixed && l.hasName)

end Location

end LayoutGraph
