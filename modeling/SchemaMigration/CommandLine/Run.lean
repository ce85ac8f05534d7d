import SchemaMigration.CommandLine.Arguments
import SchemaMigration.CommandLine.Terminal
import SchemaMigration.CommandLine.Wording
import SchemaMigration.Scaffold
/-! # Runs

A run carries out the command of a command line. What it meets is given by its surroundings:
how a connection is made, the files, the terminal and the time. New files need no
connection. A connection is closed at the end, and a failure to close it is the failure of
the run. -/
namespace SchemaMigration.CommandLine

variable {σ : Type}

/-- What a run meets. -/
structure Surroundings (σ : Type) where
  /-- Makes a connection to a data source name, with so many attempts. -/
  connect : String → Int32 → Action σ (Connection σ)
  files : Part σ Files
  terminal : Part σ Terminal
  now : Instant

namespace Surroundings

/-- How the operator is asked, if at all. -/
def prompter (w : Surroundings σ) (s : Settings) : Option (String → Action σ Bool) :=
  if s.interactive then some (Terminal.ask w.terminal) else none

/-- The migrator on a connection. -/
def migrator (w : Surroundings σ) (s : Settings) (c : Connection σ) :
    Except Failure (Migrator σ) := do
  let dialect ← Dialect.choose c.driver c.dsn s.options
  let c := { c with backend := c.backend.heard (Terminal.hear w.terminal s.verbose) }
  return {
    history := dialect.history c (return w.now.seconds)
    directory := s.directory
    compact := s.compact
    prompter := w.prompter s
    journal := Terminal.tell w.terminal s.verbose }

/-- Carries out a task on a migrator and answers with the lines to be written. -/
def work (w : Surroundings σ) (m : Migrator σ) (ctx : Context σ) (task : Task) :
    Action σ (List String) := do
  let files ← w.files.read
  let limit (text : Option String) (standard : Limit) : Action σ Limit :=
    .ofExcept (Limit.readOr text standard)
  match task with
  | .up text => return summaryLines (← m.up files ctx (← limit text .all))
  | .down text => return summaryLines (← m.down files ctx (← limit text (.count 1)))
  | .redo text => return summaryLines (← m.redo files ctx (← limit text (.count 1)))
  | .history text => return historyLines (← m.applied ctx (← limit text (.count 10)))
  | .pending text => return pendingLines (← m.pending files ctx (← limit text .all))
  | .moveTo version => return summaryLines (← m.moveTo files ctx version)

/-- Carries out a command. -/
def perform (w : Surroundings σ) (s : Settings) : Command → Action σ Unit
  | .create name => do
    let created ← Scaffold.create w.files (w.prompter s) w.now s.directory name
    Terminal.writeLines w.terminal (createdLines created)
  | .migrate task => do
    if s.dsn.isEmpty then throw (.config "a DSN is required")
    let c ← w.connect s.dsn s.attempts
    let m ← .ofExcept (w.migrator s c)
    let result ← Action.outcome do
      Terminal.writeLines w.terminal (← w.work m (.ofToken .never) task)
    c.close
    .ofExcept result

end Surroundings

/-- How a run ends. -/
structure Exit where
  code : Nat
  /-- What is said about a failure. -/
  complaint : String
  deriving DecidableEq, Repr

/-- Reads a command line and does what it asks for. One that is refused changes nothing. -/
def Surroundings.run (w : Surroundings σ) (environment : List (String × String))
    (arguments : List String) (s : σ) : Exit × σ :=
  let ended : Except Failure Unit × σ → Exit × σ
    | (.ok (), s) => (⟨0, ""⟩, s)
    | (.error f, s) => (⟨1, complaint f⟩, s)
  match Request.read environment arguments with
  | .error m => (⟨2, "error: " ++ m.message ++ "\n"⟩, s)
  | .ok .help => ended ((Terminal.writeLines w.terminal helpLines).perform s)
  | .ok .version => ended ((Terminal.writeLines w.terminal [versionLine]).perform s)
  | .ok (.run settings command) => ended ((w.perform settings command).perform s)

end SchemaMigration.CommandLine
