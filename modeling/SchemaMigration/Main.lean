import SchemaMigration.Scripted.State
import Std.Time.DateTime.Timestamp
/-! # The program

The outer layer of the command line: it looks up the variables and the time, lets the run be
computed, and then shows what the run wrote and makes the files that it made. No server is in
reach of the program itself, so that a task which needs one ends with the failure to connect.
A run that asks the operator is computed twice: up to the question, and again with the
answer. -/
namespace SchemaMigration.CommandLine

/-- The variables that clients look at. -/
def clientVariables : List String :=
  ["PGUSER", "PGDATABASE", "PGPORT", "PGHOSTADDR", "PGHOST", "PGSSLMODE"]

/-- The variables that stand in for options or are looked at by clients, as far as they are
set. -/
def readEnvironment : IO (List (String × String)) :=
  (Parameter.all.filterMap Parameter.environmentName? ++ clientVariables).filterMapM fun name => do
    return (← IO.getEnv name).map fun value => (name, value)

/-- The state of a run without servers, on no files. -/
def offline (environment : List (String × String)) (input : List UInt8) : Scripted.State :=
  { Scripted.State.start ⟨false, [], []⟩ ⟨false, [], [], []⟩ ⟨.network, false, [], false, []⟩
      .empty with
    environment, terminal := .start input }

/-- Makes what a run has made, below the place that its paths start from. -/
def makeFiles (base : String) (files : Files) : IO Unit :=
  files.entries.forM fun (path, entry) =>
    let place := base ++ "/".intercalate path
    match entry with
    | .directory => IO.FS.createDirAll place
    | _ => IO.FS.writeFile place ""

/-- The place that the paths of a run start from. -/
def baseOf (environment : List (String × String)) (arguments : List String) : String :=
  match Request.read environment arguments with
  | .ok (.run settings _) => if settings.directory.startsWith "/" then "/" else ""
  | _ => ""

end SchemaMigration.CommandLine

open SchemaMigration CommandLine

def main (arguments : List String) : IO UInt32 := do
  let environment ← readEnvironment
  let now := (← Std.Time.Timestamp.now).toSecondsSinceUnixEpoch.val
  let run (input : List UInt8) : Exit × Scripted.State :=
    (Scripted.State.surroundings ⟨now, 0⟩).run environment arguments (offline environment input)
  let output ← IO.getStdout
  let (exit, state, shown) ← match (run []).2.terminal.opening? with
    | some opening =>
      output.putStr opening
      output.flush
      let (exit, state) := run (Text.Utf8.encodeString (← (← IO.getStdin).getLine))
      pure (exit, state, opening.length)
    | none =>
      let (exit, state) := run []
      pure (exit, state, 0)
  makeFiles (baseOf environment arguments) state.files
  output.putStr (state.terminal.text.drop shown).toString
  (← IO.getStderr).putStr exit.complaint
  return exit.code.toUInt32
