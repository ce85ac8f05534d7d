import SchemaMigration.Files
import SchemaMigration.Script
/-! # The statements of a script file -/
namespace SchemaMigration.MigrationFile

/-- Reads a script and splits it. A fault in reading names the file. -/
def statements (t : Files) (file : MigrationFile) : Except Failure (List String) :=
  match t.read file.path with
  | .error fault => .error (.file file.path fault)
  | .ok bytes =>
    match Script.fileStatements bytes with
    | .error (.io fault) => .error (.file file.path fault)
    | r => r

end SchemaMigration.MigrationFile
