import SchemaMigration.Failure
import SchemaMigration.Number.Reading
import SchemaMigration.Text.Blank
import SchemaMigration.Text.Cut
import SchemaMigration.Text.Digit
/-! # The text of an exception

The server answers a failed statement with
`Code: 60. DB::Exception: message (NAME) (version 21.3)`, in which the name and the version
may be missing. The message is the shortest one that leaves nothing but these at the end. A
text of another shape is a message as a whole. -/
namespace SchemaMigration.ClickHouse

open Text

/-- The characters of an exception's name. -/
def isNameChar (c : Char) : Bool := c.isUpper || c.isDigit || c == '_'

/-- Whether a text is the part that names the version, or nothing. -/
def isVersionPart (cs : List Char) : Bool :=
  match dropStart? " (version ".toList cs with
  | some rest => rest.getLast? = some ')'
  | none => cs.isEmpty

/-- The name in parentheses at the start of a text, and the rest. -/
def takeName (cs : List Char) : Option (List Char × List Char) :=
  match cs with
  | ' ' :: '(' :: r =>
    let name := r.takeWhile isNameChar
    match r.dropWhile isNameChar with
    | ')' :: rest => if name.isEmpty then none else some (name, rest)
    | _ => none
  | _ => none

/-- The name that a text holds when it is nothing but the end of an exception. -/
def endingName? (cs : List Char) : Option (List Char) :=
  match takeName cs with
  | some (name, rest) =>
    if isVersionPart rest then some name else if isVersionPart cs then some [] else none
  | none => if isVersionPart cs then some [] else none

/-- The shortest message whose rest is an ending, and the name in the ending; `seen` holds
the message passed, last character first. -/
def takeMessage (seen : List Char) (cs : List Char) : List Char × List Char :=
  match endingName? cs with
  | some name => (seen.reverse, name)
  | none =>
    match cs with
    | [] => (seen.reverse, [])
    | c :: cs => takeMessage (c :: seen) cs

/-- The code that digits write, if it is one of 32 bits. -/
def codeOf? (digits : List Char) : Option Int :=
  match Number.readDigits? digits with
  | some n => if n < Nat.pow 2 31 then some n else none
  | none => none

/-- The digits of the code and the text behind the words that introduce the message. -/
def takeHead (cs : List Char) : Option (List Char × List Char) := do
  let rest ← dropStart? "Code: ".toList cs
  let digits := rest.takeWhile isDecimalDigit
  if digits.isEmpty then none
  match rest.dropWhile isDecimalDigit with
  | c :: ' ' :: rest =>
    if c = '.' ∨ c = ',' then
      let rest := (dropStart? "e.displayText() = ".toList rest).getD rest
      let rest ← dropStart? "DB::Exception: ".toList rest
      return (digits, rest)
    else none
  | _ => none

/-- Reads the text of an exception. A header may give the code as well; it counts when the
text gives none. -/
def readException (body : String) (header : Option Int) : Exception :=
  let cs := trim body.toList
  match takeHead cs with
  | some (digits, rest) =>
    let (message, name) := takeMessage [] rest
    { code := ((codeOf? digits).orElse fun _ => header).getD 0
      name := String.ofList name
      message := String.ofList (trim message) }
  | none => { code := header.getD 0, name := "", message := String.ofList cs }

end SchemaMigration.ClickHouse
