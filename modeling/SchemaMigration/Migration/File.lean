import SchemaMigration.Migration.Version
import SchemaMigration.Text.Cut
/-! # Script files

A migration has a script for each direction. The file of a script is named
`version.up.sql` or `version.down.sql`; with `safe.` after the version's point the script
runs inside a transaction. A name is read by comparing it with the names that a version can
have. -/
namespace SchemaMigration

/-- Which way a script moves the schema. -/
inductive Direction where
  | up
  | down
  deriving DecidableEq, Repr

/-- The name of a direction. -/
def Direction.name : Direction → String
  | .up => "up"
  | .down => "down"

/-- How the names of a direction's files end. -/
def Direction.suffix : Direction → String
  | .up => "up.sql"
  | .down => "down.sql"

/-- The file of a script. -/
structure MigrationFile where
  version : String
  /-- Whether the script runs inside a transaction. -/
  safely : Bool
  direction : Direction
  path : String
  deriving DecidableEq, Repr

namespace MigrationFile

open Text

/-- The parts of a path: those that are empty or a single point say nothing. -/
def pathParts (path : String) : List String :=
  ((pieces (· == '/') path.toList).map String.ofList).filter fun p => p != "" && p != "."

/-- The last part of a path, unless it leads upwards. -/
def fileName? (path : String) : Option String :=
  match (pathParts path).getLast? with
  | some name => if name = ".." then none else some name
  | none => none

/-- What follows a version and a point: the marker, and the direction. -/
def readEnding (cs : List Char) : Option (Bool × Direction) :=
  let s := String.ofList cs
  if s = "up.sql" then some (false, .up)
  else if s = "down.sql" then some (false, .down)
  else if s = "safe.up.sql" then some (true, .up)
  else if s = "safe.down.sql" then some (true, .down)
  else none

/-- Reads the name of a file. -/
def parse? (path : String) : Option MigrationFile := do
  let name ← fileName? path
  let (version, ending) ← cutFirst '.' name.toList
  let (safely, direction) ← readEnding ending
  if Version.isVersion version then
    some ⟨String.ofList version, safely, direction, path⟩
  else none

/-- The name of the file of a script. -/
def nameOf (version : String) (safely : Bool) (direction : Direction) : String :=
  version ++ (if safely then ".safe." else ".") ++ direction.suffix

/-- The names of the two files of a new migration; both are safe. -/
def newNames (name : String) (at_ : Instant) : Except Failure (String × String) := do
  let version ← Version.create name at_
  return (nameOf version true .up, nameOf version true .down)

end MigrationFile

end SchemaMigration
