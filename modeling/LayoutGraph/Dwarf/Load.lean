-- The units of a set of sections. All headers and all root entries are read
-- before any type is decoded.
import LayoutGraph.Dwarf.LineHeader
import LayoutGraph.Dwarf.Tree
import LayoutGraph.Log.Event

namespace LayoutGraph.Dwarf

/-! ## Work that can meet a fault -/

/-- Work that leaves events in the log and can end with a fault. -/
abbrev Decoding := ExceptT Fault (StateT (Array Log.Event) Script)

namespace Decoding

variable {α β : Type}

/-- A result, of which a defect is a fault of a task. -/
def settle (task : Task) : Except Defect α → Decoding α
  | .ok a => return a
  | .error defect => throw ⟨task, defect⟩

/-- A trial, of which a defect is a fault of a task. -/
def during (task : Task) (trial : Trial α) : Decoding α := do settle task (← trial.run)

def note (event : Log.Event) : Decoding Unit := modify fun log => log.push event

/-- Does the work on each item in order and keeps what it gives, after what was found before. -/
def gatherFrom (work : α → Decoding (Option β)) (found : List β) : List α → Decoding (List β)
  | [] => return found.reverse
  | a :: rest => do
    match ← work a with
    | some b => gatherFrom work (b :: found) rest
    | none => gatherFrom work found rest

/-- Does the work on each item in order. The defect that cuts the items short, if any, is then a
fault of the task. -/
def gather (task : Task) (work : α → Decoding (Option β)) (r : Readable α) :
    Decoding (List β) := do
  let found ← gatherFrom work [] r.items
  match r.defect with
  | some defect => throw ⟨task, defect⟩
  | none => return found

end Decoding

/-! ## Root entries -/

/-- The offset that an attribute of the root gives, or the start of the section. -/
def baseOf (root : AttributeList) (wanted : AttributeName) : Nat :=
  (root.lastOffset? wanted).getD 0

namespace CompiledUnit

/-- An offset in the table of the unit. -/
def textOffset (u : CompiledUnit) (index : Nat) : Trial Nat :=
  Read.ofPart .textOffsets do
    Read.skip u.textOffsetsBase
    Read.skipItems index u.encoding.offsetBytes
    Read.offset u.encoding.offsetBytes

/-- A text that the root gives by an index is of no use and may be missing, but its place in the
table must be a word. -/
def checkTextPlace (u : CompiledUnit) (root : AttributeList) (wanted : AttributeName) :
    Trial Unit := do
  match (root.all wanted).getLast? with
  | some (.textIndex index) =>
    try
      let _ ← u.textOffset index
    catch defect =>
      if defect = .placeOverflow then throw defect
  | _ => return ()

/-- The line program that a root names must have a sound header. -/
def checkLineProgram (root : AttributeList) : Trial Unit :=
  match root.lastOffset? .lineProgram with
  | some offset =>
    Read.ofPart .lines do
      Read.skip offset
      checkLineHeader
  | none => return ()

/-- The address that the root gives by an index must be there; its value is of no use. -/
def checkLowAddress (e : Encoding) (root : AttributeList) : Trial Unit :=
  match (root.all .lowAddress).getLast? with
  | some (.addressIndex index) =>
    Read.ofPart .addresses do
      Read.skip (baseOf root .addressBase)
      Read.skipItems index e.addressBytes
      let _ ← Read.offset e.addressBytes
  | _ => return ()

/-- The unit with its abbreviations and what its root entry says. -/
def complete (u : CompiledUnit) (abbreviationsPlace : Nat) : Trial CompiledUnit := do
  let abbreviations ← Abbreviation.table abbreviationsPlace
  let u := { u with abbreviations }
  let root := (← u.root).attributes
  match root.defect with
  | some defect => throw defect
  | none =>
    let u := { u with textOffsetsBase := baseOf root .stringOffsetsBase }
    u.checkTextPlace root .name
    u.checkTextPlace root .directory
    checkLineProgram root
    checkLowAddress u.encoding root
    return u

end CompiledUnit

/-! ## All units -/

/-- The units of one section. -/
def unitsOf (inTypes : Bool) (header unit : Task) : Decoding (List CompiledUnit) := do
  let part : Part := if inTypes then .types else .info
  let stop ← Script.sizeOf part
  let found ← readUnits inTypes [] (stop + 1) ⟨part, 0, stop⟩
  .gather header (fun (u, place) => do return some (← .during unit (u.complete place))) found

/-- All units: those of `.debug_info`, then those of `.debug_types`. -/
def allUnits : Decoding (List CompiledUnit) := do
  let info ← unitsOf false .infoHeader .infoUnit
  let types ← unitsOf true .typesHeader .typesUnit
  return info ++ types

end LayoutGraph.Dwarf
