/-! # Parts of a text by position

A text is kept as its UTF-8 bytes, and a part of it is what lies between two positions.  A text
can be cut at its ends and in front of the first byte of a character; anywhere else there is
nothing to be had. -/
namespace SchemaMigration.Text.Utf8

/-- Whether a byte goes on with a character that has begun: its two high bits are `10`. -/
def isContinuation (b : UInt8) : Bool := 0x80 ≤ b && b < 0xC0

/-- Whether a text can be cut at a position. -/
def isBoundary (bytes : List UInt8) (i : Nat) : Bool :=
  i == 0 || i == bytes.length || bytes[i]?.any fun b => !isContinuation b

/-- The bytes from one position up to another, if the text can be cut at both. -/
def slice? (bytes : List UInt8) (i j : Nat) : Option (List UInt8) :=
  if i ≤ j ∧ isBoundary bytes i ∧ isBoundary bytes j then some ((bytes.take j).drop i) else none

/-- The position of the first occurrence of `part`. -/
def find? (part : List UInt8) : List UInt8 → Option Nat
  | [] => if part.isEmpty then some 0 else none
  | b :: bs => if part.isPrefixOf (b :: bs) then some 0 else (find? part bs).map (· + 1)

end SchemaMigration.Text.Utf8
