-- The walk from an entry to its symbol. On the way it yields the steps that
-- write the symbol and everything the symbol needs. A compound is bound to
-- its symbol before its members are walked, so a member that leads back to
-- it finds the binding and the walk ends.
import LayoutGraph.Survey.Shape
import LayoutGraph.Survey.Size
import LayoutGraph.Survey.Step

namespace LayoutGraph.Survey

/-! ## The state of a walk -/

/-- The symbol of an entry, and whether everything it needs has been walked. -/
structure Binding where
  symbol : SymbolKey
  complete : Bool
deriving DecidableEq, Repr, Inhabited

structure Progress where
  bindings : List (EntryId × Binding) := []
  /-- Whether the symbol of `void` was written by this walk. -/
  voidWritten : Bool := false
  steps : Array Step := #[]
deriving Inhabited

namespace Progress

def symbol? (p : Progress) (id : EntryId) : Option SymbolKey :=
  (p.bindings.lookup id).map Binding.symbol

/-- Binds an entry, in place of the binding that it had. -/
def bind (p : Progress) (id : EntryId) (b : Binding) : Progress :=
  { p with bindings := (id, b) :: p.bindings.filter fun q => q.1 ≠ id }

/-- The entries whose needs are not all walked. -/
def pending (p : Progress) : List EntryId :=
  (p.bindings.filter fun q => !q.2.complete).map Prod.fst

end Progress

abbrev Walk := EStateM Failure Progress

/-! ## Moves of a walk -/

/-- A result that needs no state. -/
def pureMove {α : Type} (r : Except Failure α) : Walk α := fun p =>
  match r with
  | .ok a => .ok a p
  | .error e => .error e p

def emit (s : Step) : Walk Unit := modify fun p => { p with steps := p.steps.push s }

/-- The entry has its symbol, and its needs are still being walked. -/
def reserve (id : EntryId) (key : SymbolKey) : Walk Unit := modify fun p => p.bind id ⟨key, false⟩

def complete (id : EntryId) (key : SymbolKey) : Walk Unit := modify fun p => p.bind id ⟨key, true⟩

/-- Writes a symbol. -/
def intern (name : String) (byteSize : Nat) : Walk SymbolKey := do
  let key : SymbolKey := ⟨name, byteSize⟩
  emit (.symbol key)
  return key

def voidKey : SymbolKey := ⟨voidName, 0⟩

/-- The symbol of `void`, written the first time that a walk needs it. -/
def voidSymbol : Walk SymbolKey := do
  if (← get).voidWritten then
    return voidKey
  else
    let key ← intern voidKey.name voidKey.byteSize
    modify fun p => { p with voidWritten := true }
    return key

/-- Writes the constants of an enumeration under a symbol. -/
def emitConstants (symbol : SymbolKey) (constants : List Constant) : Walk Unit :=
  constants.forM fun c => emit (.enumerator symbol c)

/-- The name of a member; one without a name is named by its place. -/
def memberName (m : Member) (place : Nat) : String :=
  let name := m.name.getD ""
  if name = "" then "_anon_" ++ toString place else name

/-- Writes the members of a compound as fields of `owner`. Each member's type is
walked to its shape with `room`, and from the goal of the shape on by `resolve`. -/
def emitMembers (source : Source) (room : Nat)
    (resolve : (left : Nat) → left ≤ room → EntryId → Walk SymbolKey) (owner : SymbolKey)
    (members : List Member) : Walk Unit :=
  members.zipIdx.forM fun (m, place) =>
    match h : shapeOf source room m.type with
    | .error e => throw e
    | .ok shape => do
      let type ← match hg : shape.goal with
        | some goal => resolve goal.room (goal_room_le h hg) goal.entry
        | none => voidSymbol
      emit <| .field
        { owner, name := memberName m place, byteOffset := m.byteOffset, type
          extents := shape.extents, bitSize := m.bitSize, bitOffset := m.bitOffset
          pointerDepth := shape.pointerDepth }

/-! ## Entries -/

/-- The symbol that an answered entry is bound to under its own id, where that is not the
id it was asked by: a declaration is answered with its definition. -/
def boundElsewhere? (p : Progress) (id : EntryId) (entry : Entry) : Option SymbolKey :=
  if entry.id = id then none else p.symbol? entry.id

/-- Whether an entry waits for the name of a typedef and no typedef has named it yet. -/
def unnamed (p : Progress) (entry : Entry) : Bool :=
  entry.awaitsName && (p.symbol? entry.id).isNone

/-- The entry behind a typedef's target; nothing where that is `void`. -/
def aliased (source : Source) (room : Nat) : Option EntryId → Except Failure (Option Entry)
  | some target => unqualified source room target
  | none => .ok none

/-- The symbol of the entry `id`. A struct, union or enumeration takes the name
`name?` where one is given. -/
def resolve (source : Source) (room : Nat) (id : EntryId) (name? : Option String) :
    Walk SymbolKey :=
  match room with
  | 0 => throw (tooDeep id)
  | room + 1 => do
    let start ← get
    match start.symbol? id with
    | some key => return key
    | none =>
      let entry ← pureMove (source.entry id)
      match boundElsewhere? start id entry with
      | some key => return key
      | none =>
        emit (.visit id entry.shownName)
        match entry.kind with
        | .base =>
          let name := if entry.anonymous then voidName else entry.shownName
          let key ← intern name (entry.byteSize.getD 0)
          complete id key
          return key
        | .compound _ members _ =>
          let byteSize ← pureMove (sizeOf source (room + 1) entry.id)
          let key ← intern (name?.getD entry.shownName) byteSize
          reserve entry.id key
          emitMembers source room (fun left _ target => resolve source left target none) key members
          complete entry.id key
          return key
        | .enumeration constants =>
          let key ← intern (name?.getD entry.shownName) (entry.byteSize.getD 0)
          emitConstants key constants
          complete entry.id key
          return key
        | .array element _ =>
          let key ← resolve source room element none
          complete id key
          return key
        | .pointer (some target) =>
          let key ← resolve source room target none
          complete id key
          return key
        | .pointer none =>
          let key ← voidSymbol
          complete id key
          return key
        | .qualified (some target) => resolve source room target name?
        | .qualified none => voidSymbol
        | .typedef target =>
          let behind ← pureMove (aliased source room target)
          match behind.filter (unnamed start) with
          | some bare =>
            let key ← resolve source room bare.id (some entry.shownName)
            complete entry.id key
            return key
          | none =>
            let byteSize ← pureMove (sizeOf source (room + 1) entry.id)
            let key ← intern entry.shownName byteSize
            reserve entry.id key
            match target with
            | some target => do
              let _ ← resolve source room target none
            | none => pure ()
            match behind.map Entry.kind with
            | some (.compound _ members _) =>
              emitMembers source (room - 1) (fun left _ target => resolve source left target none)
                key members
            | some (.enumeration constants) => emitConstants key constants
            | _ => pure ()
            complete entry.id key
            return key
termination_by room

end LayoutGraph.Survey
