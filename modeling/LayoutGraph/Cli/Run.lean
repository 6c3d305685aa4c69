-- What the commands do to the files and what they say.
import LayoutGraph.Cli.Command
import LayoutGraph.Graph.Layout
import LayoutGraph.Input
import LayoutGraph.Log.Line
import LayoutGraph.Store.DatabaseFile

namespace LayoutGraph.Cli

/-! ## What a program says -/

inductive Output
  | out (text : String)
  | err (text : String)
  | logged (record : Log.Record)
deriving Repr, Inhabited

/-- What a command has done so far. -/
structure Workplace where
  files : Files
  output : Array Output := #[]
deriving Inhabited

/-- Work of a command, which a failure ends. What it has said before stays said. -/
abbrev Work := EStateM Failure Workplace

namespace Work

def say (o : Output) : Work Unit := modify fun w => { w with output := w.output.push o }

def note (event : Log.Event) (origin : Option String) : Work Unit := say (.logged ⟨event, origin⟩)

/-! ## Databases -/

/-- An answer about the files, which it may change. -/
def ofStore {α : Type} : Except StoreFault (α × Files) → Work α
  | .ok (a, files) => do
    modify fun w => { w with files }
    return a
  | .error fault => throw (.store fault)

/-- Opens a database. That it was found is noted before it is known what its file holds. -/
def openDatabase (name : String) : Work (Files.Connection × DatabaseFile) := do
  let found ← ofStore ((← get).files.connect name)
  note (.openedDatabase name) none
  return (found, .opened (← ofStore ((← get).files.load found)))

def saveRows (found : Files.Connection) (rows : Graph) : Work Unit :=
  modify fun w => { w with files := w.files.save found rows }

/-- A change of a database, which is closed however the change ends. -/
def change {α : Type} (name : String) (work : Recording DatabaseFile α) : Work α := do
  let (found, file) ← openDatabase name
  let finish (r : Recorder DatabaseFile) : Work Unit := do
    r.log.toList.forM fun event => note event none
    saveRows found r.store.close
  match work { store := file } with
  | .ok a r =>
    finish r
    return a
  | .error e r =>
    finish r
    throw e

/-! ## Commands -/

/-- How many symbols and fields a pass made, on a line. -/
def passLine (input : String) (tally : Tally) : String :=
  input ++ ": " ++ toString tally.symbolsCreated ++ " new symbol(s), "
    ++ toString tally.symbolsReused ++ " reused, "
    ++ toString tally.fieldsCreated ++ " new field(s)\n"

/-- Parses one input; the answer is the session after it, the database, and whether it went well. A
failure that ends the command closes the database. -/
def parseInput (found : Files.Connection) (session : Session) (file : DatabaseFile)
    (input : String) : Work (Session × DatabaseFile × Bool) := do
  let (result, file) := session.parseFile (← get).files input file
  match result with
  | .error e =>
    saveRows found file.close
    throw e
  | .ok (report, session) =>
    report.log.forM fun event => note event (some input)
    if report.status.isOk then say (.out (passLine input session.tally))
    else say (.err (input ++ ": " ++ report.status.text ++ "\n"))
    return (session, file, report.status.isOk)

/-- Parses inputs in order and closes the database; the answer counts those that failed. While an
input is read the file holds what was committed before. -/
def parseInputs (found : Files.Connection) (session : Session) (file : DatabaseFile) :
    List String → Work Nat
  | [] => do
    saveRows found file.close
    return 0
  | input :: rest => do
    let (session, file, ok) ← parseInput found session file input
    saveRows found file.stored
    let failed ← parseInputs found session file rest
    return if ok then failed else failed + 1

def parse (inputs : List String) (output : String) : Work Nat := do
  let (found, file) ← openDatabase output
  let failed ← parseInputs found {} file inputs
  note (.inputsParsed inputs.length failed output) none
  return if failed = 0 then 0 else 1

def remappedLine (r : Change.Remapped) : String :=
  r.mapping.old ++ " -> " ++ r.mapping.new ++ " (symbol " ++ toString r.target.raw ++ "): "
    ++ toString r.fieldsRewritten ++ " field(s) rewritten\n"

def remap (output : String) (mappings : List Change.Mapping) : Work Nat := do
  let report ← change output (Change.remap mappings)
  report.forM fun r => say (.out (remappedLine r))
  return 0

def overriddenLine (o : Change.Overridden) : String :=
  o.request.symbol ++ "." ++ o.request.field ++ " -> " ++ o.typeName ++ " (symbol "
    ++ toString o.replacement.raw ++ "): " ++ toString o.enumeratorsCreated ++ " new constant(s)\n"

def override (output : String) (request : Change.Override) : Work Nat := do
  let report ← change output (Change.override [request])
  report.forM fun o => say (.out (overriddenLine o))
  return 0

def showLayouts (output name : String) : Work Nat := do
  let (_, file) ← openDatabase output
  match file.seen.graph.symbolsNamed name with
  | [] => throw (.unknownSymbol name)
  | symbols =>
    symbols.forM fun s => say (.out (file.seen.graph.layout s))
    return 0

/-- A command; the answer is its exit code. -/
def command : Command → Work Nat
  | .parse inputs output => parse inputs output
  | .remap output mappings => remap output mappings
  | .override output request => override output request
  | .layout output name => showLayouts output name

end Work

/-! ## Runs -/

/-- How a command ended: with an exit code, or by a number that left its 64 bits. -/
structure Run where
  ending : Except Failure Nat
  output : List Output
  files : Files
deriving Inhabited

/-- Runs a command. A failure is told and is the exit code one. -/
def Command.run (c : Command) (files : Files) : Run :=
  match Work.command c { files } with
  | .ok code w => ⟨.ok code, w.output.toList, w.files⟩
  | .error e w =>
    if Pass.handled e then
      ⟨.ok 1, w.output.toList ++ [.err ("Error: " ++ e.message ++ "\n")], w.files⟩
    else ⟨.error e, w.output.toList, w.files⟩

namespace Output

/-- What goes to the standard output. -/
def toStdout : Output → String
  | .out text => text
  | _ => ""

/-- What goes to the error output, with the log as it is set up, if it is. -/
def toStderr (setup : Option Log.Setup) : Output → String
  | .out _ => ""
  | .err text => text
  | .logged record => ((setup.bind fun s => s.line? record).elim "") fun line => line ++ "\n"

end Output

namespace Run

def stdout (r : Run) : String := String.join (r.output.map Output.toStdout)

def stderr (r : Run) (setup : Option Log.Setup) : String :=
  String.join (r.output.map (Output.toStderr setup))

end Run

end LayoutGraph.Cli
