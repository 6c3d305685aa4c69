-- Files as commands see them: directories, files of bytes and database
-- files, named by paths from the root or from a working directory.
import LayoutGraph.Bytes
import LayoutGraph.Failure
import LayoutGraph.Store.Database
import LayoutGraph.Store.Location
import LayoutGraph.Text.Cut

namespace LayoutGraph

/-- What a path names. -/
inductive Node
  | directory
  | file (bytes : Bytes)
  | database (rows : Graph)
deriving Inhabited

/-! ## Paths -/

/-- A place: the names that lead to it from the root. -/
abbrev Place := List String

/-- The files by their places, the newest in front, and the working directory. -/
structure Files where
  nodes : List (Place × Node) := []
  working : Place := []
deriving Inhabited

/-- The parts of a path between its slashes. -/
def pathParts (path : String) : List String := (Text.pieces '/' path.toList).map String.ofList

namespace Files

/-- The most bytes that a name may have. -/
def longestName : Nat := 255

/-- The most bytes that a path may have. -/
def longestPath : Nat := 4095

/-- What lies at a place, if anything does. The working directory and those above it are there. -/
def nodeAt? (files : Files) (place : Place) : Option Node :=
  if place.isPrefixOf files.working then some .directory else files.nodes.lookup place

def isDirectory (files : Files) (place : Place) : Bool :=
  match files.nodeAt? place with
  | some .directory => true
  | _ => false

/-- Where a path starts, and its parts from there on. -/
def startOf (files : Files) (path : String) : Place × List String :=
  match pathParts path with
  | "" :: rest => ([], rest)
  | parts => (files.working, parts)

/-- The place that one part of a path leads to from a directory. -/
def enter (place : Place) (part : String) : Place :=
  match part with
  | "" | "." => place
  | ".." => place.dropLast
  | part => place ++ [part]

/-- Follows the parts of a path. All but the last must name directories; the last may be new. -/
def follow (files : Files) : Place → List String → Except IoFault Place
  | place, [] => .ok place
  | place, part :: rest =>
    match files.nodeAt? place with
    | none => .error .notFound
    | some .directory =>
      if longestName < part.utf8ByteSize then .error .nameTooLong
      else if !rest.isEmpty && (files.nodeAt? (enter place part)).isNone then .error .notFound
      else files.follow (enter place part) rest
    | some _ => .error .notADirectory

/-- The place of a path, which exists or could be made. -/
def place (files : Files) (path : String) : Except IoFault Place :=
  if path.toList.contains '\x00' then .error .zeroInName
  else if path.isEmpty then .error .notFound
  else if longestPath < path.utf8ByteSize then .error .nameTooLong
  else
    let (start, parts) := files.startOf path
    files.follow start parts

/-- The place of a path, whether or not anything is there. -/
def placeOf (files : Files) (path : String) : Place :=
  let (start, parts) := files.startOf path
  parts.foldl enter start

/-- The places that the parts of a path lead to, one after the other. -/
def placesOn : Place → List String → List Place
  | _, [] => []
  | place, part :: rest => enter place part :: placesOn (enter place part) rest

/-! ## Use of files -/

/-- The start of every database file. -/
def databaseMagic : Bytes := "SQLite format 3\x00".toUTF8.data

/-- The bytes of a file. Of a database file only the start is known. -/
def read (files : Files) (path : String) : Except IoFault Bytes := do
  match files.nodeAt? (← files.place path) with
  | none => throw .notFound
  | some .directory => throw .isADirectory
  | some (.file bytes) => return bytes
  | some (.database _) => return databaseMagic

def put (files : Files) (place : Place) (node : Node) : Files :=
  { files with nodes := (place, node) :: files.nodes.filter fun n => n.1 ≠ place }

/-! ## Directories -/

/-- A new directory. What leads to it must be there, and nothing where it is to be. -/
def makeDirectory (files : Files) (start : Place) (steps : List String) : Except IoFault Files := do
  let place ← files.follow start steps
  if (files.nodeAt? place).isSome then throw .exists
  return files.put place .directory

/-- A directory that is there or is made. -/
def ensureDirectory (files : Files) (start : Place) (steps : List String) :
    Except IoFault Files :=
  match files.makeDirectory start steps with
  | .ok files => .ok files
  | .error fault =>
    match files.follow start steps with
    | .ok place => if files.isDirectory place then .ok files else .error fault
    | .error _ => .error fault

/-- A directory by its steps, the last one first. Where a directory on the way is not there, the way
is made before it. -/
def ensureWayBack (files : Files) (start : Place) : List String → Except IoFault Files
  | [] => .ok files
  | step :: back =>
    match files.ensureDirectory start (step :: back).reverse with
    | .error .notFound => do
      let files ← files.ensureWayBack start back
      files.ensureDirectory start (step :: back).reverse
    | ended => ended

/-- A directory and those on the way to it, each of which is there or is made. -/
def makeDirectories (files : Files) (start : Place) (steps : List String) :
    Except IoFault Files := files.ensureWayBack start steps.reverse

/-! ## Databases -/

/-- A database that was found, before it is known what its file holds. -/
structure Connection where
  /-- Where its rows are saved, if they are. -/
  place : Option Place
  mayWrite : Bool
deriving DecidableEq, Repr, Inhabited

/-- The most bytes that the path of a database from the root may have. -/
def longestDatabasePath : Nat := 504

/-- Whether something can be named in a place: all can where nothing is, and nothing in a file. -/
def canName (files : Files) (place : Place) (name : String) : Bool :=
  match files.nodeAt? place with
  | none => true
  | some .directory => name.utf8ByteSize ≤ longestName
  | some _ => false

/-- Follows the parts of a database's path. They lead on also where nothing is. -/
def followDatabase? (files : Files) : Place → List String → Option Place
  | place, [] => some place
  | place, part :: rest =>
    let next := enter place part
    if next.length ≤ place.length ∨ files.canName place part then files.followDatabase? next rest
    else none

/-- The place of a database's path. -/
def databasePlace? (files : Files) (path : String) : Option Place :=
  let (start, parts) := files.startOf path
  (files.followDatabase? start parts).filter fun place =>
    let size := place.foldl (fun size name => size + 1 + name.utf8ByteSize) 0
    0 < size && size ≤ longestDatabasePath

/-- Finds a database by its name. A file that is not there is made if it may be, without bytes. -/
def connect (files : Files) (name : String) : Except StoreFault (Connection × Files) := do
  let location ← Location.ofName name
  match location.file? with
  | none => return (⟨none, location.mayWrite⟩, files)
  | some path =>
    match files.databasePlace? path with
    | none => throw (.cannotOpen name)
    | some place =>
      let found : Connection := ⟨some place, location.mayWrite⟩
      match files.nodeAt? place with
      | some .directory =>
        throw (if location.access = .read then .unreadable else .cannotOpen name)
      | some _ => return (found, files)
      | none =>
        if location.access = .create ∧ files.isDirectory place.dropLast then
          return (found, files.put place (.file #[]))
        else throw (.cannotOpen name)

/-- Saves the rows of a database, if it has a file. -/
def save (files : Files) (found : Connection) (rows : Graph) : Files :=
  match found.place with
  | none => files
  | some place => files.put place (.database rows)

/-- Makes the tables of a database that has none, which must be one that may be written. -/
def layOut (files : Files) (found : Connection) : Except StoreFault (Database × Files) :=
  if found.mayWrite then .ok (.ofGraph {}, files.save found {}) else .error .notWritable

/-- The rows of a database. No file and a file without bytes are a database without tables. -/
def load (files : Files) (found : Connection) : Except StoreFault (Database × Files) :=
  match found.place.bind files.nodeAt? with
  | some (.database rows) =>
    .ok ({ Database.ofGraph rows with mayWrite := found.mayWrite }, files)
  | some (.file bytes) => if bytes.isEmpty then files.layOut found else .error .notADatabase
  | _ => files.layOut found

/-- A database by its name, with its rows. -/
def openDatabase (files : Files) (name : String) :
    Except StoreFault (Connection × Database × Files) := do
  let (found, files) ← files.connect name
  let (db, files) ← files.load found
  return (found, db, files)

end Files

end LayoutGraph
