import SchemaMigration.Text.Blank
import SchemaMigration.Text.Cut
import SchemaMigration.Text.Utf8
/-! # Percent coding

Two forms of one idea: bytes outside a safe set are written as `%` and two hexadecimal
digits. Plain percent coding is used for user names and passwords; form coding is used
for query strings, where a space is `+` and pairs are joined by `&`. Reading undoes
writing, and takes a `%` without two digits for itself. -/
namespace SchemaMigration.Text.Percent

/-- The upper-case hexadecimal digit of a number below sixteen. -/
def digit (n : Nat) : Char :=
  if n < 10 then Char.ofNat (48 + n) else Char.ofNat (55 + n)

/-- The value of a hexadecimal digit given as a byte. -/
def digitValue? (b : UInt8) : Option Nat :=
  let n := b.toNat
  if 48 ≤ n ∧ n ≤ 57 then some (n - 48)
  else if 65 ≤ n ∧ n ≤ 70 then some (n - 55)
  else if 97 ≤ n ∧ n ≤ 102 then some (n - 87)
  else none

/-- `%` and the two digits of a byte. -/
def escape (b : UInt8) : List Char :=
  ['%', digit (b.toNat / 16), digit (b.toNat % 16)]

/-- The bytes of a text in which `%XX` stands for a byte. -/
def unescape : List UInt8 → List UInt8
  | [] => []
  | [b] => [b]
  | [b, c] => [b, c]
  | b :: h :: l :: rest =>
    if b = 37 then
      match digitValue? h, digitValue? l with
      | some x, some y => (16 * x + y).toUInt8 :: unescape rest
      | _, _ => b :: unescape (h :: l :: rest)
    else b :: unescape (h :: l :: rest)

/-- Letters, digits and `-`, `.`, `_`, `~` stand for themselves. -/
def isPlain (b : UInt8) : Bool :=
  let c := Char.ofNat b.toNat
  b < 128 && (c.isAlphanum || c == '-' || c == '.' || c == '_' || c == '~')

/-- Writes every byte outside the plain set as `%XX`. -/
def encode (cs : List Char) : List Char :=
  (Utf8.encode cs).flatMap fun b => if isPlain b then [Char.ofNat b.toNat] else escape b

/-- Undoes `encode`; the bytes must be UTF-8. -/
def decode (cs : List Char) : Except Utf8.Fault (List Char) :=
  Utf8.decode (unescape (Utf8.encode cs))

/-- Letters, digits and `*`, `-`, `.`, `_` stand for themselves in a form. -/
def isFormPlain (b : UInt8) : Bool :=
  let c := Char.ofNat b.toNat
  b < 128 && (c.isAlphanum || c == '*' || c == '-' || c == '.' || c == '_')

/-- Writes a key or value of a form. -/
def encodeField (cs : List Char) : List Char :=
  (Utf8.encode cs).flatMap fun b =>
    if isFormPlain b then [Char.ofNat b.toNat]
    else if b = 32 then ['+']
    else escape b

/-- Reads a key or value of a form; bytes that are no UTF-8 are replaced. -/
def decodeField (cs : List Char) : List Char :=
  Utf8.decodeLossy (unescape (Utf8.encode (cs.map fun c => if c == '+' then ' ' else c)))

/-- The pairs of a query string. Empty parts are skipped; a part without `=` is a key with
an empty value. -/
def readForm (cs : List Char) : List (List Char × List Char) :=
  ((pieces (· == '&') cs).filter (fun part => !part.isEmpty)).map fun part =>
    match cutFirst '=' part with
    | some (key, value) => (decodeField key, decodeField value)
    | none => (decodeField part, [])

/-- The query string of a list of pairs. -/
def writeForm (pairs : List (List Char × List Char)) : List Char :=
  ['&'].intercalate (pairs.map fun (key, value) => encodeField key ++ '=' :: encodeField value)

end SchemaMigration.Text.Percent
