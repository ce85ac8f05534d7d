/-! # Base 64

Three bytes are written as four characters, and padding fills the last four. Reading is
strict: the length is a multiple of four, the padding stands at the end, and the bits that
padding leaves over are zero. -/
namespace SchemaMigration.Text.Base64

/-- The six bits of a character, given as a byte. -/
def sextet? (b : UInt8) : Option Nat :=
  let n := b.toNat
  if 65 ≤ n ∧ n ≤ 90 then some (n - 65)
  else if 97 ≤ n ∧ n ≤ 122 then some (n - 71)
  else if 48 ≤ n ∧ n ≤ 57 then some (n + 4)
  else if n = 43 then some 62
  else if n = 47 then some 63
  else none

/-- The padding character. -/
def pad : UInt8 := 61

/-- The bytes of the last four characters, which may end in padding. -/
def decodeLast (a b c d : UInt8) : Option (List UInt8) := do
  let x ← sextet? a
  let y ← sextet? b
  if c = pad ∧ d = pad then
    if y % 16 = 0 then some [(x * 4 + y / 16).toUInt8] else none
  else
    let z ← sextet? c
    if d = pad then
      if z % 4 = 0 then some [(x * 4 + y / 16).toUInt8, (y * 16 + z / 4).toUInt8] else none
    else
      let w ← sextet? d
      some [(x * 4 + y / 16).toUInt8, (y * 16 + z / 4).toUInt8, (z * 64 + w).toUInt8]

/-- Reads a text. -/
def decode : List UInt8 → Option (List UInt8)
  | [] => some []
  | [a, b, c, d] => decodeLast a b c d
  | a :: b :: c :: d :: rest =>
    match sextet? a, sextet? b, sextet? c, sextet? d with
    | some x, some y, some z, some w =>
      (decode rest).map fun out =>
        (x * 4 + y / 16).toUInt8 :: (y * 16 + z / 4).toUInt8 :: (z * 64 + w).toUInt8 :: out
    | _, _, _, _ => none
  | _ => none

end SchemaMigration.Text.Base64
