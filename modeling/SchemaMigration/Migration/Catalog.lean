import SchemaMigration.Action
import SchemaMigration.Migration.File
/-! # Catalogs

A catalog holds the scripts of a directory, at most one for each version and direction. The
scripts of a direction are kept in ascending order of their versions. -/
namespace SchemaMigration

/-- The scripts of both directions, each list ascending by version. -/
structure Catalog where
  ups : List MigrationFile
  downs : List MigrationFile
  deriving Repr

namespace Catalog

/-- The catalog without scripts. -/
def empty : Catalog := ⟨[], []⟩

/-- The script of a version. -/
def find? (version : String) (files : List MigrationFile) : Option MigrationFile :=
  files.find? fun f => f.version == version

/-- Puts a script at its place; one with the same version may not be there. -/
def place (file : MigrationFile) : List MigrationFile → List MigrationFile
  | [] => [file]
  | f :: fs => if file.version < f.version then file :: f :: fs else f :: place file fs

/-- The scripts of a direction. -/
def scripts (c : Catalog) : Direction → List MigrationFile
  | .up => c.ups
  | .down => c.downs

/-- The script of a version in a direction. -/
def get? (c : Catalog) (version : String) (direction : Direction) : Option MigrationFile :=
  find? version (c.scripts direction)

/-- Adds a script; a second one for its version and direction is refused. -/
def insert (c : Catalog) (file : MigrationFile) : Except Failure Catalog :=
  match c.get? file.version file.direction with
  | some _ => .error (.duplicateMigration file.version file.path)
  | none =>
    .ok (match file.direction with
      | .up => { c with ups := place file c.ups }
      | .down => { c with downs := place file c.downs })

/-- Adds a script to a catalog in its place. -/
def add (file : MigrationFile) : Action Catalog Unit := do
  let c ← Part.whole.read
  let c ← .ofExcept (c.insert file)
  Part.whole.write c

/-- Adds scripts in order. -/
def insertAll (c : Catalog) (files : List MigrationFile) : Except Failure Catalog :=
  files.foldlM insert c

/-- Whether a version has a script. -/
def contains (c : Catalog) (version : String) : Bool :=
  (c.get? version .up).isSome || (c.get? version .down).isSome

/-- Whether there is no script. -/
def isEmpty (c : Catalog) : Bool := c.ups.isEmpty && c.downs.isEmpty

end Catalog

end SchemaMigration
