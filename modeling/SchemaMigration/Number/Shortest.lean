import SchemaMigration.Number.Ieee
/-! # The shortest decimal that reads back

Every decimal in the interval of reals that round to a number reads back as this number.
Of all decimals in the interval those with the fewest digits are taken, and of those the
nearest. A grid of decimals meets the interval only if one of the two neighbours of the
number on the grid lies in it, so it is enough to look at these. -/
namespace SchemaMigration.Number

/-- Which of two decimals at the same distance is taken. -/
inductive Tie where
  | up
  | even
  deriving DecidableEq, Repr

/-- The reals that round to `value / den`: those between `low / den` and `high / den`,
the ends included when `closed`. -/
structure Interval where
  low : Nat
  value : Nat
  high : Nat
  den : Nat
  closed : Bool

/-- The interval of a positive number. The lower half is narrower where the exponent
changes. -/
def Interval.of (f : Format) (significand : Nat) (exponent : Int) : Interval :=
  let step := if significand = Nat.pow 2 (f.precision - 1) ∧ f.minExponent < exponent then 1 else 2
  let (num, den) := quotient 1 (exponent - 2)
  ⟨(4 * significand - step) * num, 4 * significand * num, (4 * significand + 2) * num, den,
    significand % 2 == 0⟩

/-- Whether `n / d` lies in the interval. -/
def Interval.holds (i : Interval) (n d : Nat) : Bool :=
  let x := n * i.den
  if i.closed then i.low * d ≤ x && x ≤ i.high * d else i.low * d < x && x < i.high * d

/-- Decimal digits and the place of the point: `0.digits · 10 ^ point`. -/
structure Digits where
  digits : List Char
  point : Int
  deriving DecidableEq, Repr

/-- The decimal `n · 10 ^ place`, without zeros at the end. -/
def Digits.of (n : Nat) (place : Int) : Digits :=
  let ds := Nat.toDigits 10 n
  ⟨(ds.reverse.dropWhile (· == '0')).reverse, place + ds.length⟩

/-- The decimal nearest to the number among those of the grid `10 ^ place` that lie in the
interval. -/
def Interval.onGrid (i : Interval) (tie : Tie) (place : Int) : Option Nat :=
  let (mul, div) : Nat × Nat := match place with
    | .ofNat k => (Nat.pow 10 k, 1)
    | .negSucc k => (1, Nat.pow 10 (k + 1))
  let below := i.value * div / (i.den * mul)
  let rest := i.value * div % (i.den * mul)
  let lowIn := below != 0 && i.holds (below * mul) div
  let highIn := i.holds ((below + 1) * mul) div
  let nearer :=
    if 2 * rest < i.den * mul then below
    else if i.den * mul < 2 * rest then below + 1
    else match tie with
      | .up => below + 1
      | .even => if below % 2 = 0 then below else below + 1
  match lowIn, highIn with
  | true, true => some nearer
  | true, false => some below
  | false, true => some (below + 1)
  | false, false => none

/-- Tries one grid after another, each ten times finer, until one meets the interval. -/
def Interval.search (i : Interval) (tie : Tie) : Nat → Int → Digits
  | 0, place => .of (i.value / i.den) place
  | fuel + 1, place =>
    match i.onGrid tie place with
    | some n => .of n place
    | none => i.search tie fuel (place - 1)

/-- The number of decimal digits before the point of `num / den`, or less the number of
zeros after it; it may be one too small. -/
def decimalPlace (num den : Nat) : Int :=
  if den ≤ num then (Nat.toDigits 10 (num / den)).length
  else 1 - (Nat.toDigits 10 (den / num)).length

/-- The shortest digits of a positive finite number. Eighteen grids are enough: seventeen
digits always tell two numbers apart. -/
def shortest (f : Format) (tie : Tie) (significand : Nat) (exponent : Int) : Digits :=
  let i := Interval.of f significand exponent
  i.search tie 20 (decimalPlace i.value i.den + 1)

/-- Digits in positional notation, with no point when nothing follows it. -/
def Digits.positional (d : Digits) : List Char :=
  match d.point with
  | .ofNat p =>
    let whole := d.digits.take p ++ List.replicate (p - d.digits.length) '0'
    let rest := d.digits.drop p
    (if whole.isEmpty then ['0'] else whole) ++ (if rest.isEmpty then [] else '.' :: rest)
  | .negSucc p => '0' :: '.' :: List.replicate (p + 1) '0' ++ d.digits

/-- The text of a number: positional, never with an exponent. -/
def Parts.display (f : Format) : Parts → String
  | .nan => "NaN"
  | .infinite s => if s then "-inf" else "inf"
  | .finite s m e =>
    let text := if m = 0 then ['0'] else (shortest f .up m e).positional
    String.ofList (if s then '-' :: text else text)

/-- The text of a number of 64 bits. -/
def Double.display (x : Double) : String := x.parts.display binary64

/-- The text of a number of 32 bits. -/
def Single.display (x : Single) : String := x.parts.display binary32

/-- Digits as data formats write them: with a point, or with an exponent and its sign below
`10 ^ -5` and from `10 ^ 16` on. -/
def Digits.scientific (d : Digits) : List Char :=
  let exponent (e : Int) : List Char :=
    'e' :: (if e < 0 then '-' else '+') :: Nat.toDigits 10 e.natAbs
  if 0 < d.point ∧ d.point ≤ 16 then
    let p := d.point.toNat
    let rest := d.digits.drop p
    d.digits.take p ++ List.replicate (p - d.digits.length) '0' ++ '.' ::
      (if rest.isEmpty then ['0'] else rest)
  else if -5 < d.point ∧ d.point ≤ 0 then
    '0' :: '.' :: List.replicate (-d.point).toNat '0' ++ d.digits
  else match d.digits with
    | [] => []
    | [c] => c :: exponent (d.point - 1)
    | c :: rest => c :: '.' :: rest ++ exponent (d.point - 1)

/-- The text of a finite number in a data format; `null` stands for the others. -/
def Double.dataText (x : Double) : String :=
  match x.parts with
  | .finite s m e =>
    let text := if m = 0 then ['0', '.', '0'] else (shortest binary64 .even m e).scientific
    String.ofList (if s then '-' :: text else text)
  | _ => "null"

end SchemaMigration.Number
