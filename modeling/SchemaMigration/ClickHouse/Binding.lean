import SchemaMigration.ClickHouse.Section
import SchemaMigration.Failure
import SchemaMigration.Value
/-! # Statements with arguments

A question mark in code is a placeholder. Each is replaced by the literal of its argument,
in order, and nothing else in the statement changes. A statement without arguments is sent
as it is. The format of the answer is named behind the last section that means something, so
that no comment and no semicolon can swallow it. -/
namespace SchemaMigration.ClickHouse

open Text

/-- A character inside a literal: a backslash goes before backslashes and apostrophes. -/
def escapeChar (c : Char) : List Char :=
  if c.toNat = 0x5C ∨ c.toNat = 0x27 then ['\\', c] else [c]

/-- A text as a literal. -/
def quote (cs : List Char) : List Char :=
  let mark := Char.ofNat 0x27
  mark :: cs.flatMap escapeChar ++ [mark]

mutual

/-- The literal of a value. -/
def literal : Value → List Char
  | .null => ['N', 'U', 'L', 'L']
  | .bool b => [if b then '1' else '0']
  | .int n => (toString n.toInt).toList
  | .uint n => (toString n.toNat).toList
  | .float x => x.display.toList
  | .text s => quote s.toList
  | .bytes bs => quote (Utf8.decodeLossy bs)
  | .time t => quote t.display.toList
  | .tuple vs => '[' :: [',', ' '].intercalate (literals vs) ++ [']']

/-- The literals of values. -/
def literals : List Value → List (List Char)
  | [] => []
  | v :: vs => literal v :: literals vs

end

/-- The placeholders of a statement. -/
def placeholders (sections : List Section) : Nat :=
  ((sections.filter fun s => s.kind = .code).flatMap fun s => s.text).count '?'

/-- Code with its placeholders replaced, and the literals that are left. -/
def fillCode : List (List Char) → List Char → List Char × List (List Char)
  | left, [] => ([], left)
  | l :: left, '?' :: cs =>
    let (out, left) := fillCode left cs
    (l ++ out, left)
  | left, c :: cs =>
    let (out, left) := fillCode left cs
    (c :: out, left)

/-- A statement with its placeholders replaced. -/
def fill : List (List Char) → List Section → List Char
  | _, [] => []
  | left, s :: rest =>
    if s.kind = .code then
      let (out, left) := fillCode left s.text
      out ++ fill left rest
    else s.text ++ fill left rest

/-- Replaces the placeholders of a statement by the literals of its arguments. -/
def bind (query : String) (args : List Value) : Except Failure String :=
  if args.isEmpty then .ok query
  else
    let sections := Section.all query.toList
    let n := placeholders sections
    if args.length < n then .error (.bind (.missing args.length))
    else if n < args.length then .error (.bind (.unused n args.length))
    else .ok (String.ofList (fill (literals args) sections))

/-- The characters that may end a statement without meaning anything. -/
def isTerminator (c : Char) : Bool := c == ';' || isBlank c

/-- Whether a section means something to the server. -/
def Section.isMeaningful (s : Section) : Bool :=
  match s.kind with
  | .quoted => true
  | .code => s.text.any fun c => !isTerminator c
  | .comment => false

/-- A statement up to the last section that means something. -/
def meaningfulPart (cs : List Char) : List Char :=
  dropEndWhile isTerminator
    (Section.join ((Section.all cs).reverse.dropWhile fun s => !s.isMeaningful).reverse)

/-- A query that asks for an answer of rows. -/
def withFormat (sql : String) : String :=
  String.ofList (meaningfulPart sql.toList) ++ " FORMAT JSONCompact"

/-- Whether a statement is one that a transaction keeps until it is committed. -/
def isInsert (query : String) : Bool :=
  lower (String.ofList ((query.toList.dropWhile isBlank).take 6)) = "insert"

end SchemaMigration.ClickHouse
