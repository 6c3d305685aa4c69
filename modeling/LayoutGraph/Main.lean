-- The command line. The files that a command names are read into memory, the
-- program runs on them, and what it changed is written back.
import LayoutGraph.Cli.Program
import LayoutGraph.Store.Archive

namespace LayoutGraph.Cli

/-! ## Places on disk -/

/-- The path of a place from the root. -/
def diskPath (place : Place) : String := "/" ++ "/".intercalate place

/-- What a file on disk is: the file form of a graph is a database. -/
def nodeOfBytes (bytes : Bytes) : Node :=
  match Archive.graph? (Text.lossy bytes.toList) with
  | some rows => .database rows
  | none => .file bytes

/-- What lies at a place on disk, if anything does. What is there and cannot be read as a file is
taken for a directory. -/
def readNode (place : Place) : IO (Option Node) := do
  try
    return some (nodeOfBytes (← IO.FS.readBinFile (diskPath place)).data)
  catch
    | .noFileOrDirectory .. => return none
    | _ => return some .directory

/-- The files with what lies on disk at a path, and on the way to it. -/
def addFromDisk (files : Files) (path : String) : IO Files := do
  let mut files := files
  let (start, parts) := files.startOf path
  for place in Files.placesOn start parts do
    if (files.nodeAt? place).isNone then
      match ← readNode place with
      | some node => files := files.put place node
      | none => pure ()
  return files

/-- Writes to disk what changed. Files of bytes never do, but may be new. -/
def writeToDisk (before : Files) (node : Place × Node) : IO Unit := do
  let (place, node) := node
  match node with
  | .directory => if (before.nodeAt? place).isNone then IO.FS.createDirAll (diskPath place)
  | .database rows => IO.FS.writeFile (diskPath place) (Archive.ofGraph rows)
  | .file bytes =>
    if (before.nodeAt? place).isNone then IO.FS.writeBinFile (diskPath place) ⟨bytes⟩

/-! ## The program on disk -/

/-- The path of the file of a database. -/
def databasePath (name : String) : List String :=
  match Location.ofName name with
  | .ok location => location.file?.toList
  | .error _ => []

/-- The paths that a command names. -/
def Command.paths : Command → List String
  | .parse inputs output => inputs ++ databasePath output
  | .remap output _ | .override output _ | .layout output _ => databasePath output

/-- The paths that a run of the program can come to. -/
def namedPaths (env : Log.Environment) (arguments : List String) : List String :=
  match Invocation.ofArguments arguments with
  | .ok invocation => invocation.command.paths ++ env.file.toList
  | .error _ => []

def runOnDisk (arguments : List String) : IO UInt32 := do
  let env : Log.Environment :=
    { filter := ← IO.getEnv "RUST_LOG"
      format := ← IO.getEnv "JUICER_LOG_FORMAT"
      file := ← IO.getEnv "JUICER_LOG_FILE" }
  let working := (pathParts (← IO.currentDir).toString).filter fun part => part ≠ ""
  let before ← (namedPaths env arguments).foldlM addFromDisk { working }
  let finish := program env before arguments
  finish.files.nodes.reverse.forM (writeToDisk before)
  (← IO.getStdout).putStr finish.stdout
  (← IO.getStderr).putStr finish.stderr
  return UInt32.ofNat finish.exitCode

end LayoutGraph.Cli

def main (arguments : List String) : IO UInt32 := LayoutGraph.Cli.runOnDisk arguments
