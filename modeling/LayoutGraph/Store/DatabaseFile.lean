-- An open database file. The first request that writes begins a transaction,
-- and a commit ends it. Until then the file holds the rows of the last commit
-- and only the store that has it open sees the others. Closing the file
-- commits what is pending.
import LayoutGraph.Store.Database

namespace LayoutGraph

structure DatabaseFile where
  /-- What the requests of the store see, the rows of an open transaction among it. -/
  seen : Database := {}
  /-- The rows of the last commit. -/
  stored : Graph := {}
  inTransaction : Bool := false
deriving DecidableEq, Repr, Inhabited

namespace DatabaseFile

/-! ## Opening and closing -/

def opened (db : Database) : DatabaseFile := { seen := db, stored := db.graph }

def commit (file : DatabaseFile) : DatabaseFile :=
  if file.inTransaction then { file with stored := file.seen.graph, inTransaction := false }
  else file

/-- The rows that a file holds once it is closed. -/
def close (file : DatabaseFile) : Graph := file.commit.stored

/-- Closing a file and opening it again. -/
def reopen (file : DatabaseFile) : DatabaseFile :=
  opened { Database.ofGraph file.close with mayWrite := file.seen.mayWrite }

/-! ## Service -/

/-- Whether a request comes to a statement that writes. One with a number that fits no column ends
before. -/
def writes {α : Type} : Request α → Bool
  | .insertOrigin .. | .insertEnumerator .. | .retargetFields .. | .setFieldType .. => true
  | .insertSymbol row => row.byteSize < Database.columnEnd
  | .insertField row =>
    row.byteOffset < Database.columnEnd && row.bitSize.all (· < Database.columnEnd) &&
      row.bitOffset.all (· < Database.columnEnd)
  | .insertDimension _ _ extent => extent < Database.columnEnd
  | _ => false

/-- The file with the transaction that a request needs. -/
def beginFor {α : Type} (request : Request α) (file : DatabaseFile) : DatabaseFile :=
  { file with inTransaction := file.inTransaction || writes request }

/-- A statement that fails changes no row, and the transaction that it is in stays open. -/
def serve {α : Type} (request : Request α) : Attempt DatabaseFile α := fun file =>
  let file := file.beginFor request
  match file.seen.answer request with
  | .error e => .error e file
  | .ok (reply, seen) =>
    let file := { file with seen }
    .ok reply (if request.method = .commit then file.commit else file)

instance : Store DatabaseFile where
  serve request := serve request

end DatabaseFile

end LayoutGraph
