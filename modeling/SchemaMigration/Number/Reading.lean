import SchemaMigration.Number.Ieee
/-! # Reading numbers

An integer is an optional sign and decimal digits; a floating-point number may also have a
fraction, an exponent, or one of the names of infinity and of no number. -/
namespace SchemaMigration.Number

/-- The digits `0` to `9`. -/
def isDigit (c : Char) : Bool := '0' ≤ c && c ≤ '9'

/-- The value of a decimal numeral. -/
def digitsValue (cs : List Char) : Nat := cs.foldl (fun n c => 10 * n + (c.toNat - 48)) 0

/-- A natural number: one or more digits. -/
def readDigits? (cs : List Char) : Option Nat :=
  if cs.isEmpty then none else if cs.all isDigit then some (digitsValue cs) else none

/-- An unsigned integer: digits, with a plus sign or none. -/
def readUnsigned? : List Char → Option Nat
  | '+' :: cs => readDigits? cs
  | cs => readDigits? cs

/-- A signed integer: digits, with a sign or none. -/
def readSigned? : List Char → Option Int
  | '-' :: cs => (readDigits? cs).map fun n => -(n : Int)
  | cs => (readUnsigned? cs).map Int.ofNat

/-- A number in decimal: `mantissa · 10 ^ exponent`. -/
structure Scientific where
  mantissa : Nat
  exponent : Int
  deriving DecidableEq, Repr

/-- The nearest number of 64 bits. A decimal beyond the range of all numbers is settled by
the place of its first digit, so that no large power is computed. -/
def Scientific.toDouble (negative : Bool) (s : Scientific) : Double :=
  let place : Int := s.exponent + (Nat.toDigits 10 s.mantissa).length
  if s.mantissa = 0 ∨ place < -330 then .ofQuotient negative 0 1
  else if 320 < place then .infinite negative
  else match s.exponent with
    | .ofNat e => .ofQuotient negative (s.mantissa * Nat.pow 10 e) 1
    | .negSucc e => .ofQuotient negative s.mantissa (Nat.pow 10 (e + 1))

/-- The value of the digits of an exponent. Once it is out of every range, from `2 ^ 16` on,
further digits are not counted. -/
def exponentValue (cs : List Char) : Nat :=
  cs.foldl (fun n c => if n < 65536 then 10 * n + (c.toNat - 48) else n) 0

/-- An exponent: an optional sign and one or more digits. -/
def readPower? (cs : List Char) : Option Int :=
  let (negative, cs) := match cs with
    | '-' :: r => (true, r)
    | '+' :: r => (false, r)
    | r => (false, r)
  if cs.isEmpty || !cs.all isDigit then none
  else
    let e : Int := exponentValue cs
    some (if negative then -e else e)

/-- The exponent part of a number, if it has one. -/
def readExponent? : List Char → Option Int
  | [] => some 0
  | c :: cs => if c == 'e' || c == 'E' then readPower? cs else none

/-- A number with digits before or after the point, and an exponent or none. -/
def readScientific? (cs : List Char) : Option Scientific :=
  let whole := cs.takeWhile isDigit
  let rest := cs.dropWhile isDigit
  let (fraction, rest) := match rest with
    | '.' :: r => (r.takeWhile isDigit, r.dropWhile isDigit)
    | r => ([], r)
  if whole.isEmpty && fraction.isEmpty then none
  else (readExponent? rest).map fun e =>
    ⟨digitsValue (whole ++ fraction), e - fraction.length⟩

/-- A floating-point number without its sign. -/
def readUnsignedDouble? (negative : Bool) (cs : List Char) : Option Double :=
  let name := String.ofList (cs.map Char.toLower)
  if name = "inf" ∨ name = "infinity" then some (.infinite negative)
  else if name = "nan" then some .nan
  else (readScientific? cs).map (·.toDouble negative)

/-- A floating-point number. -/
def readDouble? : List Char → Option Double
  | '-' :: cs => readUnsignedDouble? true cs
  | '+' :: cs => readUnsignedDouble? false cs
  | cs => readUnsignedDouble? false cs

end SchemaMigration.Number
