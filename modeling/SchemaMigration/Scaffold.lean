import SchemaMigration.Action
import SchemaMigration.Files
/-! # New migrations

A new migration starts as a pair of empty scripts, one for each direction. -/
namespace SchemaMigration.Scaffold

variable {σ : Type}

/-- What the operator is asked before the files are made. -/
def question (up down : String) : String :=
  "Create new migration files?\n  " ++ up ++ "\n  " ++ down ++ "\n"

/-- Makes an empty file. -/
def createFile (files : Part σ Files) (path : String) : Action σ Unit := do
  match (← files.read).createFile path with
  | .ok t => files.write t
  | .error fault => throw (.file path fault)

/-- Makes a directory and those above it. -/
def createDirectories (files : Part σ Files) (directory : String) : Action σ Unit := do
  match (← files.read).createDirectories directory with
  | .ok t => files.write t
  | .error fault => throw (.file directory fault)

/-- Makes the files of a new migration, unless the operator says no, and answers with their
paths. -/
def create (files : Part σ Files) (prompter : Option (String → Action σ Bool))
    (now : Instant) (directory name : String) : Action σ (Option (String × String)) := do
  let (up, down) ← .ofExcept (MigrationFile.newNames name now)
  let up := Files.join directory up
  let down := Files.join directory down
  let agreed ← match prompter with
    | some ask => ask (question up down)
    | none => pure true
  if !agreed then return none
  createDirectories files directory
  createFile files up
  createFile files down
  return some (up, down)

end SchemaMigration.Scaffold
