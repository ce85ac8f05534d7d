/-! # Binary floating-point numbers

A binary number of the IEEE 754 formats is kept as its bits. Its finite values are
`significand · 2 ^ exponent`, and a quotient of naturals is rounded to the nearest of
them, a half to the even neighbour. The formats differ in two lengths only, so each
operation is written once for both. -/
namespace SchemaMigration.Number

/-- An interchange format, by the length of its significand and the number of its
exponents. -/
structure Format where
  /-- Bits of the significand, the leading one included. -/
  precision : Nat
  /-- Bits of the exponent field. -/
  exponentBits : Nat
  deriving DecidableEq, Repr

/-- The format of 64 bits. -/
def binary64 : Format := ⟨53, 11⟩

/-- The format of 32 bits. -/
def binary32 : Format := ⟨24, 8⟩

namespace Format

/-- The weight of the least significand bit of the smallest numbers, as a power of two. -/
def minExponent (f : Format) : Int := 3 - (Nat.pow 2 (f.exponentBits - 1) : Int) - f.precision

/-- The bits of positive infinity. -/
def infinity (f : Format) : Nat := (Nat.pow 2 f.exponentBits - 1) * Nat.pow 2 (f.precision - 1)

/-- The bit that holds the sign. -/
def signBit (f : Format) : Nat := Nat.pow 2 (f.precision - 1 + f.exponentBits)

/-- The bits of the number that is no number. -/
def nan (f : Format) : Nat := f.infinity + Nat.pow 2 (f.precision - 2)

end Format

/-- What the bits of a number stand for. -/
inductive Parts where
  | nan
  | infinite (negative : Bool)
  | finite (negative : Bool) (significand : Nat) (exponent : Int)
  deriving DecidableEq, Repr

/-- Takes bits apart. -/
def Format.parts (f : Format) (bits : Nat) : Parts :=
  let negative := f.signBit ≤ bits
  let rest := bits % f.signBit
  let field := rest / Nat.pow 2 (f.precision - 1)
  let fraction := rest % Nat.pow 2 (f.precision - 1)
  if f.infinity < rest then .nan
  else if rest = f.infinity then .infinite negative
  else if field = 0 then .finite negative fraction f.minExponent
  else .finite negative (Nat.pow 2 (f.precision - 1) + fraction) (f.minExponent + (field - 1))

/-- The natural number nearest to `num / den`, a half to the even one. -/
def roundDiv (num den : Nat) : Nat :=
  let q := num / den
  let r := num % den
  if 2 * r < den then q
  else if den < 2 * r then q + 1
  else if q % 2 = 0 then q else q + 1

/-- `num / den · 2 ^ -e` as a quotient. -/
def scale (num den : Nat) (e : Int) : Nat × Nat :=
  match e with
  | .ofNat n => (num, den * Nat.pow 2 n)
  | .negSucc n => (num * Nat.pow 2 (n + 1), den)

/-- The power of two that is at most `num / den` and more than half of it. -/
def log2Div (num den : Nat) : Int :=
  let l : Int := (Nat.log2 num : Int) - Nat.log2 den
  let (n, d) := scale num den l
  if d ≤ n then l else l - 1

/-- The bits of the number nearest to `num / den`, a half to the even neighbour; infinity
when it is too large. -/
def Format.round (f : Format) (num den : Nat) : Nat :=
  if num = 0 then 0
  else
    let e := max (log2Div num den - (f.precision - 1)) f.minExponent
    let (n, d) := scale num den e
    min ((e - f.minExponent).toNat * Nat.pow 2 (f.precision - 1) + roundDiv n d) f.infinity

/-- Sets the sign. -/
def Format.withSign (f : Format) (negative : Bool) (bits : Nat) : Nat :=
  if negative then f.signBit + bits else bits

/-- The quotient that a finite number stands for. -/
def quotient (significand : Nat) (exponent : Int) : Nat × Nat :=
  match exponent with
  | .ofNat n => (significand * Nat.pow 2 n, 1)
  | .negSucc n => (significand, Nat.pow 2 (n + 1))

/-- A number of 64 bits. -/
structure Double where
  bits : UInt64
  deriving DecidableEq, Repr

/-- A number of 32 bits. -/
structure Single where
  bits : UInt32
  deriving DecidableEq, Repr

namespace Double

/-- What the number stands for. -/
def parts (x : Double) : Parts := binary64.parts x.bits.toNat

/-- The number with the given bits. -/
def ofBits (n : Nat) : Double := ⟨n.toUInt64⟩

/-- The number nearest to a quotient. -/
def ofQuotient (negative : Bool) (num den : Nat) : Double :=
  ofBits (binary64.withSign negative (binary64.round num den))

/-- The number nearest to an integer; zero has no sign. -/
def ofInt (n : Int) : Double := ofQuotient (n < 0) n.natAbs 1

/-- The number that is no number. -/
def nan : Double := ofBits binary64.nan

/-- Infinity with a sign. -/
def infinite (negative : Bool) : Double :=
  ofBits (binary64.withSign negative binary64.infinity)

/-- Whether the number is no number. -/
def isNaN (x : Double) : Bool := x.parts == .nan

/-- Whether the number is infinite. -/
def isInfinite (x : Double) : Bool :=
  match x.parts with
  | .infinite _ => true
  | _ => false

/-- The nearest number of 32 bits. -/
def toSingle (x : Double) : Single :=
  let bits := match x.parts with
    | .nan => binary32.nan
    | .infinite s => binary32.withSign s binary32.infinity
    | .finite s m e =>
      let (num, den) := quotient m e
      binary32.withSign s (binary32.round num den)
  ⟨bits.toUInt32⟩

/-- The product of two finite numbers, rounded once. -/
def mul (x y : Double) : Double :=
  match x.parts, y.parts with
  | .finite s m e, .finite t k d =>
    let (num, den) := quotient m e
    let (num', den') := quotient k d
    ofQuotient (s != t) (num * num') (den * den')
  | _, _ => nan

/-- The quotient of two finite numbers, rounded once; the divisor is not zero. -/
def div (x y : Double) : Double :=
  match x.parts, y.parts with
  | .finite s m e, .finite t k d =>
    let (num, den) := quotient m e
    let (num', den') := quotient k d
    ofQuotient (s != t) (num * den') (den * num')
  | _, _ => nan

/-- Whether the number is zero, of either sign. -/
def isZero (x : Double) : Bool :=
  match x.parts with
  | .finite _ m _ => m == 0
  | _ => false

/-- The number with the other sign. -/
def neg (x : Double) : Double := ⟨x.bits ^^^ 0x8000000000000000⟩

end Double

namespace Single

/-- What the number stands for. -/
def parts (x : Single) : Parts := binary32.parts x.bits.toNat

/-- Whether the number is no number. -/
def isNaN (x : Single) : Bool := x.parts == .nan

/-- The same number in 64 bits. -/
def toDouble (x : Single) : Double :=
  match x.parts with
  | .nan => .nan
  | .infinite s => .infinite s
  | .finite s m e =>
    let (num, den) := quotient m e
    .ofQuotient s num den

end Single

end SchemaMigration.Number
