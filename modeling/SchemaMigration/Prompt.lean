import SchemaMigration.Failure
import SchemaMigration.Text.Blank
import SchemaMigration.Text.Cut
/-! # Asking the operator

A question is written with a hint at its answers, and one line is read. Only `y` and `yes`
accept, in any case; the end of the input declines. -/
namespace SchemaMigration.Prompt

/-- What is written for a question. -/
def question (message : String) : String := message ++ " [y/N]: "

/-- The bytes of the first line, its end included, and the bytes after it. -/
def takeLine (input : List UInt8) : List UInt8 × List UInt8 :=
  let line := input.takeWhile (· != 10)
  match input.drop line.length with
  | [] => (line, [])
  | b :: rest => (line ++ [b], rest)

/-- Whether a line accepts. -/
def accepts (line : List Char) : Bool :=
  let answer := Text.lower (String.ofList (Text.trim line))
  answer = "y" || answer = "yes"

/-- Reads an answer; what follows its line is left. -/
def answer (input : List UInt8) : Except Failure Bool × List UInt8 :=
  let (line, rest) := takeLine input
  match Text.Utf8.decode line with
  | .ok cs => (.ok (accepts cs), rest)
  | .error _ => (.error (.io .lineNotText), rest)

end SchemaMigration.Prompt
