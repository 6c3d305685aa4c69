-- The whole program: arguments are read, the log is set up, the command runs.
import LayoutGraph.Cli.Run
import LayoutGraph.Log.Settings

namespace LayoutGraph.Cli

/-- The end of a run of the program. -/
structure Finish where
  exitCode : Nat
  stdout : String := ""
  stderr : String := ""
  files : Files
deriving Inhabited

/-- The exit code of a program that a number outside its 64 bits ends. -/
def abortCode : Nat := 101

/-- A run of the program that reads no command in its arguments. -/
def refuse (files : Files) : Refusal → Finish
  | .usage u =>
    if u.exitCode = 0 then { exitCode := 0, stdout := u.text, files }
    else { exitCode := u.exitCode, stderr := "error: " ++ u.text ++ "\n", files }
  | .failure f => { exitCode := abortCode, stderr := f.message ++ "\n", files }

/-- Runs the program on its arguments in an environment. -/
def program (env : Log.Environment) (files : Files) (arguments : List String) : Finish :=
  match Invocation.ofArguments arguments with
  | .error r => refuse files r
  | .ok invocation =>
    match env.setUp (invocation.verbosity.bind Log.Level.ofVerbosity?) files with
    | .error fault =>
      { exitCode := 1, stderr := "Failed to initialize logging: " ++ fault.message ++ "\n", files }
    | .ok (setup, files) =>
      let run := invocation.command.run files
      match run.ending with
      | .ok code =>
        { exitCode := code, stdout := run.stdout, stderr := run.stderr (some setup)
          files := run.files }
      | .error f =>
        { exitCode := abortCode, stdout := run.stdout
          stderr := run.stderr (some setup) ++ f.message ++ "\n", files := run.files }

end LayoutGraph.Cli
