import SchemaMigration.Text.Blank
import SchemaMigration.Number.Reading
/-! # Points in time

A point in time is a number of seconds since the start of 1970, in UTC, with a number of
nanoseconds; a full second of nanoseconds or more marks a leap second. Dates follow the
Gregorian rule in both directions. The written form is `year-month-day hour:minute:second`. -/
namespace SchemaMigration

/-- A point in time. -/
structure Instant where
  /-- Whole seconds since 1970, rounded down. -/
  seconds : Int
  /-- Nanoseconds on top of them. -/
  nanos : Nat
  deriving DecidableEq, Repr

namespace Calendar

/-- A day of the Gregorian calendar. -/
structure Date where
  year : Int
  month : Nat
  day : Nat
  deriving DecidableEq, Repr

/-- Whether a year has 366 days. -/
def isLeap (year : Int) : Bool := year % 4 == 0 && (year % 100 != 0 || year % 400 == 0)

/-- The days of a month. -/
def monthLength (year : Int) (month : Nat) : Nat :=
  if month = 2 then (if isLeap year then 29 else 28)
  else if month = 4 ∨ month = 6 ∨ month = 9 ∨ month = 11 then 30
  else 31

/-- The number of a day, counted from the first of January 1970. Years are counted from
March, so that the leap day comes last, in periods of 400 years. -/
def dayNumber (d : Date) : Int :=
  let y : Int := if d.month ≤ 2 then d.year - 1 else d.year
  let period := y.fdiv 400
  let yearOfPeriod := y - period * 400
  let monthFromMarch : Nat := (d.month + 9) % 12
  let dayOfYear : Int := ((153 * monthFromMarch + 2) / 5 + d.day - 1 : Nat)
  let dayOfPeriod := yearOfPeriod * 365 + yearOfPeriod / 4 - yearOfPeriod / 100 + dayOfYear
  period * 146097 + dayOfPeriod - 719468

/-- The day with a given number. -/
def dateOf (number : Int) : Date :=
  let z := number + 719468
  let period := z.fdiv 146097
  let dayOfPeriod := (z - period * 146097).toNat
  let yearOfPeriod :=
    (dayOfPeriod - dayOfPeriod / 1460 + dayOfPeriod / 36524 - dayOfPeriod / 146096) / 365
  let dayOfYear := dayOfPeriod - (365 * yearOfPeriod + yearOfPeriod / 4 - yearOfPeriod / 100)
  let monthFromMarch := (5 * dayOfYear + 2) / 153
  let month := if monthFromMarch < 10 then monthFromMarch + 3 else monthFromMarch - 9
  let year : Int := yearOfPeriod + period * 400
  ⟨if month ≤ 2 then year + 1 else year, month, dayOfYear - (153 * monthFromMarch + 2) / 5 + 1⟩

/-- The first and the last year that a point in time may lie in. -/
def minYear : Int := -262143
def maxYear : Int := 262142

/-- A number in decimal with zeros in front up to a width. -/
def padded (width n : Nat) : String :=
  let ds := Nat.toDigits 10 n
  String.ofList (List.replicate (width - ds.length) '0' ++ ds)

/-- A year: four digits, with a sign outside 0 to 9999. -/
def yearText (year : Int) : String :=
  if year < 0 then "-" ++ padded 4 year.natAbs
  else if 9999 < year then "+" ++ padded 4 year.natAbs
  else padded 4 year.natAbs

end Calendar

namespace Instant

open Calendar

/-- The day of a point in time. -/
def date (t : Instant) : Date := dateOf (t.seconds.fdiv 86400)

/-- The second of the day. -/
def secondOfDay (t : Instant) : Nat := (t.seconds - t.seconds.fdiv 86400 * 86400).toNat

/-- Hour, minute and second; a leap second has the number sixty. -/
def clock (t : Instant) : Nat × Nat × Nat :=
  let s := t.secondOfDay
  (s / 3600, s / 60 % 60, s % 60 + t.nanos / 1000000000)

/-- The written form. -/
def display (t : Instant) : String :=
  let d := t.date
  let (h, m, s) := t.clock
  s!"{yearText d.year}-{padded 2 d.month}-{padded 2 d.day} {padded 2 h}:{padded 2 m}:{padded 2 s}"

/-- Two digits each for year, month and day, then an underscore, then two digits each for
hour, minute and second. -/
def stamp (t : Instant) : String :=
  let d := t.date
  let (h, m, s) := t.clock
  padded 2 (d.year % 100).toNat ++ padded 2 d.month ++ padded 2 d.day ++ "_" ++
    padded 2 h ++ padded 2 m ++ padded 2 s

/-- The point in time a number of seconds after 1970, if its year is in range. -/
def ofSeconds? (seconds : Int) : Option Instant :=
  let y := (dateOf (seconds.fdiv 86400)).year
  if minYear ≤ y ∧ y ≤ maxYear then some ⟨seconds, 0⟩ else none

end Instant

namespace Calendar

open Text Number

/-- A run of one to `width` digits at the start of a text, and the rest. -/
def takeNumber? (width : Nat) (cs : List Char) : Option (Nat × List Char) :=
  let ds := (cs.take width).takeWhile isDigit
  if ds.isEmpty then none else some (digitsValue ds, cs.drop ds.length)

/-- A field of at most two digits within bounds; blanks before it are skipped. -/
def takeField? (low high : Nat) (cs : List Char) : Option (Nat × List Char) :=
  match takeNumber? 2 (cs.dropWhile isBlank) with
  | some (n, rest) => if low ≤ n ∧ n ≤ high then some (n, rest) else none
  | none => none

/-- A year: at most four digits, or any number of them after a sign. -/
def takeYear? (cs : List Char) : Option (Int × List Char) :=
  match cs.dropWhile isBlank with
  | '-' :: r => (takeNumber? r.length r).map fun (n, rest) => (-(n : Int), rest)
  | '+' :: r => (takeNumber? r.length r).map fun (n, rest) => ((n : Int), rest)
  | r => (takeNumber? 4 r).map fun (n, rest) => ((n : Int), rest)

/-- The rest of a text that begins with `c`. -/
def takeMark? (c : Char) : List Char → Option (List Char)
  | d :: rest => if d = c then some rest else none
  | [] => none

/-- Reads the written form. Blanks are allowed before each number, and between day and
hour any number of them, also none. The second sixty is a leap second. -/
def read? (cs : List Char) : Option Instant := do
  let (year, cs) ← takeYear? cs
  let cs ← takeMark? '-' cs
  let (month, cs) ← takeField? 1 12 cs
  let cs ← takeMark? '-' cs
  let (day, cs) ← takeField? 1 31 cs
  let (hour, cs) ← takeField? 0 23 cs
  let cs ← takeMark? ':' cs
  let (minute, cs) ← takeField? 0 59 cs
  let cs ← takeMark? ':' cs
  let (second, cs) ← takeField? 0 60 cs
  if cs.isEmpty ∧ day ≤ monthLength year month ∧ minYear ≤ year ∧ year ≤ maxYear then
    let time := hour * 3600 + minute * 60 + min second 59
    some ⟨dayNumber ⟨year, month, day⟩ * 86400 + time, if second = 60 then 1000000000 else 0⟩
  else none

end Calendar

end SchemaMigration
