import SchemaMigration.Calendar
import SchemaMigration.Failure
import SchemaMigration.Identifier
import SchemaMigration.Text.Digit
/-! # Versions

A version is a date and a time of six digits each, with an underscore between them or
none, followed by a name. -/
namespace SchemaMigration.Version

open Text

/-- The rest of a text after as many decimal digits. -/
def afterDigits? : Nat → List Char → Option (List Char)
  | 0, cs => some cs
  | n + 1, c :: cs => if isDecimalDigit c then afterDigits? n cs else none
  | _ + 1, [] => none

/-- The text after an underscore, or the same text when it begins with something else. -/
def afterUnderscore : List Char → List Char
  | '_' :: cs => cs
  | cs => cs

/-- Whether a text is a name: letters, digits and underscores, and at least one of them. -/
def isName (cs : List Char) : Bool := !cs.isEmpty && cs.all Identifier.isPlain

/-- Whether a text is a version. -/
def isVersion (cs : List Char) : Bool :=
  match afterDigits? 6 cs with
  | none => false
  | some rest =>
    match afterDigits? 6 (afterUnderscore rest) with
    | none => false
    | some name => isName name

/-- Refuses what is no version. -/
def validate (version : String) : Except Failure Unit :=
  if isVersion version.toList then .ok () else .error (.invalidVersion version)

/-- The version of a new migration. -/
def create (name : String) (at_ : Instant) : Except Failure String :=
  if isName name.toList then .ok (at_.stamp ++ "_" ++ name)
  else .error (.invalidMigrationName name)

end SchemaMigration.Version
