import SchemaMigration.ClickHouse.Section
import SchemaMigration.Text.Slice
import SchemaMigration.Text.Utf8
/-! # The walk over the bytes of a statement

A statement is walked byte by byte, and its sections are cut out of it by position.  A quote, two
dashes, or a slash and a star open a section that is not code; where it ends is looked for in the
bytes behind, and the walk goes on from there.

A walk has no result if it goes on for ever or if it cuts inside a character.  Positions are counted
without a bound: none lies more than one beyond the end of the statement, which is in memory. -/
namespace SchemaMigration.ClickHouse

open Text Utf8

namespace Walk

def newline : UInt8 := 0x0A

def star : UInt8 := 0x2A

def dash : UInt8 := 0x2D

def slash : UInt8 := 0x2F

def backslash : UInt8 := 0x5C

/-- The three quotes as bytes. -/
def isQuote (b : UInt8) : Bool := b == 0x27 || b == 0x22 || b == 0x60

/-- The position behind a quoted text that is walked from `i` on: behind the next quote, or the
end of the statement.  A backslash takes the next byte along, also into a character. -/
def quotedEnd (bytes : List UInt8) (quote : UInt8) (i : Nat) : Nat :=
  if _h : i < bytes.length then
    if bytes[i] = backslash then quotedEnd bytes quote (i + 2)
    else if bytes[i] = quote then i + 1
    else quotedEnd bytes quote (i + 1)
  else bytes.length
termination_by bytes.length - i

/-- What the walk finds at a position: a byte of code, or a section of another kind and where it
ends. -/
inductive Sight where
  | code
  | opens (kind : SectionKind) (stop : Nat)

/-- What the walk finds at the position `i`, where the byte `b` stands. -/
def sight (bytes : List UInt8) (i : Nat) (b : UInt8) : Option Sight :=
  let next := bytes[i + 1]?
  if isQuote b then some (.opens .quoted (quotedEnd bytes b (i + 1)))
  else if b = dash ∧ next = some dash then
    (slice? bytes i bytes.length).map fun behind =>
      .opens .comment ((find? [newline] behind).elim bytes.length (i + ·))
  else if b = slash ∧ next = some star then
    (slice? bytes (i + 2) bytes.length).map fun behind =>
      .opens .comment ((find? [star, slash] behind).elim bytes.length (i + · + 4))
  else some .code

/-- A section as it is cut out. -/
structure Slice where
  kind : SectionKind
  bytes : List UInt8
  deriving DecidableEq, Repr

/-- The code between two positions, if there is any. -/
def codeBetween (bytes : List UInt8) (i j : Nat) : Option (List Slice) :=
  if i < j then (slice? bytes i j).map fun text => [⟨.code, text⟩] else some []

end Walk

/-- Where a walk stands. -/
structure Walk where
  /-- What has been cut out, in order. -/
  done : List Walk.Slice
  /-- Where the code begins that has not been cut out. -/
  start : Nat
  /-- The position of the byte that is looked at next. -/
  pos : Nat

namespace Walk

/-- One turn of a walk at the byte `b`. -/
def turn (bytes : List UInt8) (w : Walk) (b : UInt8) : Option Walk :=
  (sight bytes w.pos b).bind fun
    | .code => some { w with pos := w.pos + 1 }
    | .opens kind stop =>
      (codeBetween bytes w.start w.pos).bind fun code =>
        (slice? bytes w.pos stop).map fun text =>
          ⟨w.done ++ code ++ [⟨kind, text⟩], stop, stop⟩

/-- The slices that a walk comes to. -/
def run (bytes : List UInt8) (w : Walk) : Option (List Slice) :=
  match bytes[w.pos]? with
  | none => (codeBetween bytes w.start bytes.length).map (w.done ++ ·)
  | some b => do
    let w ← turn bytes w b
    w |>.run bytes
partial_fixpoint

/-- The slices of a statement. -/
def slices (statement : String) : Option (List Slice) :=
  run (encodeString statement) ⟨[], 0, 0⟩

end Walk

end SchemaMigration.ClickHouse
