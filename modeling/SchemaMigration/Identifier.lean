import SchemaMigration.Failure
import SchemaMigration.Text.Cut
/-! # Identifiers

Names of tables, schemas and clusters stand in statements as they are. They may hold only
letters, digits and underscores, so that a name is never more than a name. -/
namespace SchemaMigration.Identifier

/-- The longest identifier, in bytes. -/
def maxLength : Nat := 65000

/-- The characters of identifiers: `A` to `Z`, `a` to `z`, `0` to `9` and `_`. -/
def isPlain (c : Char) : Bool := c.isAlphanum || c == '_'

/-- Refuses the first character outside the class, and else a length over the limit. The
empty name passes, because every name is optional. -/
def validate (name : String) : Except Failure Unit :=
  match name.toList.find? (fun c => !isPlain c) with
  | some c => .error (.invalidIdentifier name (.character c))
  | none =>
    if maxLength < name.utf8ByteSize then
      .error (.invalidIdentifier name (.tooLong name.utf8ByteSize maxLength))
    else .ok ()

/-- Validates names in order and stops at the first failure. -/
def validateAll (names : List String) : Except Failure Unit := names.forM validate

/-- Parts `schema.table` at the first point. -/
def splitQualified (name : String) : Option String × String :=
  match Text.cutFirst '.' name.toList with
  | some (schema, table) => (some (String.ofList schema), String.ofList table)
  | none => (none, name)

end SchemaMigration.Identifier
