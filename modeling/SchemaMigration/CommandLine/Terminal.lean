import SchemaMigration.Action
import SchemaMigration.Migrator
import SchemaMigration.Prompt
import SchemaMigration.Retry
/-! # Terminals

A terminal keeps what a run has written, in order, and what the operator has yet to say.
Lines and statements are told apart when they are written; the texts are views of the one
list. -/
namespace SchemaMigration.CommandLine

/-- A piece of what a run writes. -/
inductive Written where
  /-- A line, or several. -/
  | line (text : String)
  /-- A question, whose line is left open. -/
  | question (text : String)
  /-- A statement that is about to run. -/
  | statement (level : Level) (text : String)
  /-- A statement as it is sent, with its line breaks. -/
  | sent (text : String)
  /-- A warning, with its line breaks. -/
  | warning (text : String)
  deriving DecidableEq, Repr

/-- A level in five columns. -/
def levelColumn : Level → String
  | .info => " INFO"
  | .debug => "DEBUG"

/-- The mark of a warning, in the columns of a level. -/
def warningColumn : String := " WARN"

/-- The lines of a text behind its first one. -/
def furtherLines (text : String) : List String :=
  (text.splitOn "\n").tail.map fun l => (l.dropSuffix "\r").toString

namespace Written

/-- The text as it appears. -/
def text : Written → String
  | line text => text ++ "\n"
  | question text => text
  | statement level text => levelColumn level ++ " Executing statement=" ++ text ++ "\n"
  | sent text => levelColumn .debug ++ " Sending statement=" ++ text ++ "\n"
  | warning text => warningColumn ++ " " ++ text ++ "\n"

/-- Whether the operator is asked. -/
def isQuestion : Written → Bool
  | question _ => true
  | _ => false

/-- The lines of what is said to the operator; an open line counts. Nothing marks the further
lines of a statement that is sent or of a warning, so that they are among them. -/
def spoken : Written → List String
  | line text => text.splitOn "\n"
  | question text => text.splitOn "\n"
  | statement _ _ => []
  | sent text => furtherLines text
  | warning text => furtherLines text

/-- The lines that tell of statements. -/
def told : Written → List String
  | statement level text => [levelColumn level ++ " Executing statement=" ++ text]
  | _ => []

end Written

/-- What a run has written, and the bytes that the operator has yet to give. -/
structure Terminal where
  written : List Written
  input : List UInt8
  deriving DecidableEq, Repr

namespace Terminal

/-- A terminal on which nothing has been written. -/
def start (input : List UInt8) : Terminal := ⟨[], input⟩

/-- All that has been written. -/
def text (t : Terminal) : String := String.join (t.written.map Written.text)

/-- What has been written before the first answer of the operator, if one is asked for. -/
def opening? (t : Terminal) : Option String :=
  match t.written.span fun w => !w.isQuestion with
  | (_, []) => none
  | (before, question :: _) => some (String.join ((before ++ [question]).map Written.text))

/-- The lines of what has been said to the operator. -/
def spoken (t : Terminal) : List String := t.written.flatMap Written.spoken

/-- The lines that tell of statements. -/
def told (t : Terminal) : List String := t.written.flatMap Written.told

variable {σ : Type}

/-- Writes a piece. -/
def write (terminal : Part σ Terminal) (w : Written) : Action σ Unit :=
  terminal.change fun t => { t with written := t.written ++ [w] }

/-- Writes lines. -/
def writeLines (terminal : Part σ Terminal) (lines : List String) : Action σ Unit :=
  lines.forM fun l => write terminal (.line l)

/-- Asks the operator. -/
def ask (terminal : Part σ Terminal) (message : String) : Action σ Bool := do
  write terminal (.question (Prompt.question message))
  let t ← terminal.read
  let (answer, rest) := Prompt.answer t.input
  terminal.write { t with input := rest }
  .ofExcept answer

/-- Tells of a statement. The most talkative level is heard only by those who ask for it. -/
def tell (terminal : Part σ Terminal) (verbose : Bool) (level : Level) (statement : String) :
    Action σ Unit :=
  if level = .debug ∧ !verbose then return () else write terminal (.statement level statement)

/-- Shows a statement that is sent, at the most talkative level. -/
def hear (terminal : Part σ Terminal) (verbose : Bool) (statement : String) : Action σ Unit :=
  if verbose then write terminal (.sent statement) else return ()

/-- Shows a warning, which is heard at every level. -/
def warn (terminal : Part σ Terminal) (w : Retry.Warning) : Action σ Unit :=
  write terminal (.warning w.message)

end Terminal

end SchemaMigration.CommandLine
