import SchemaMigration.Json.Basic
import SchemaMigration.Number.Reading
/-! # Documents in JSON

Reading has two stages. The first finds the form of a document: which numerals, strings,
arrays and objects it consists of, as they are written. The second gives a form its value,
and only here can a numeral be too large, an escape be half of a pair, or containers be
nested too deeply. A part of a document that nobody asks for stays a form. -/
namespace SchemaMigration.Json

open Number

/-- A numeral as it is written. -/
structure Numeral where
  negative : Bool
  whole : List Char
  fraction : List Char
  /-- Whether there is a point or an exponent. -/
  isDecimal : Bool
  exponentNegative : Bool
  exponent : List Char

/-- A character of a string, or the number behind `\u`. -/
inductive Piece where
  | char (c : Char)
  | code (n : Nat)

/-- The form of a document. -/
inductive Form where
  | null
  | bool (b : Bool)
  | number (n : Numeral)
  | string (pieces : List Piece)
  | array (items : List Form)
  | object (fields : List (List Piece × Form))

namespace Form

/-- The blanks between the parts of a document. -/
def isGap (c : Char) : Bool := c == ' ' || c == '\t' || c == '\n' || c == '\r'

/-- Drops blanks. -/
def skip (cs : List Char) : List Char := cs.dropWhile isGap

/-- A run of digits and the rest. -/
def takeDigits (cs : List Char) : List Char × List Char :=
  (cs.takeWhile isDigit, cs.dropWhile isDigit)

/-- The exponent of a numeral: its sign and its digits. -/
def takeExponent (cs : List Char) : Option (Bool × List Char × List Char) :=
  let (negative, cs) := match cs with
    | '+' :: r => (false, r)
    | '-' :: r => (true, r)
    | r => (false, r)
  let (digits, rest) := takeDigits cs
  if digits.isEmpty then none else some (negative, digits, rest)

/-- The fraction of a numeral, if a point follows. -/
def takeFraction (cs : List Char) : Option (List Char × List Char) :=
  match cs with
  | '.' :: r =>
    let (digits, rest) := takeDigits r
    if digits.isEmpty then none else some (digits, rest)
  | r => some ([], r)

/-- A numeral: no zero in front, and digits on both sides of a point. -/
def takeNumeral (cs : List Char) : Option (Numeral × List Char) := do
  let (negative, cs) := match cs with
    | '-' :: r => (true, r)
    | r => (false, r)
  let (whole, cs) := takeDigits cs
  if whole.isEmpty ∨ (whole.head? = some '0' ∧ whole.length ≠ 1) then none
  let (fraction, cs) ← takeFraction cs
  match cs with
  | c :: r =>
    if c = 'e' ∨ c = 'E' then
      let (exponentNegative, exponent, rest) ← takeExponent r
      return (⟨negative, whole, fraction, true, exponentNegative, exponent⟩, rest)
    else return (⟨negative, whole, fraction, !fraction.isEmpty, false, []⟩, c :: r)
  | [] => return (⟨negative, whole, fraction, !fraction.isEmpty, false, []⟩, [])

/-- The value of a hexadecimal digit. -/
def hexValue? (c : Char) : Option Nat :=
  if '0' ≤ c ∧ c ≤ '9' then some (c.toNat - 48)
  else if 'a' ≤ c ∧ c ≤ 'f' then some (c.toNat - 87)
  else if 'A' ≤ c ∧ c ≤ 'F' then some (c.toNat - 55)
  else none

/-- The number that four hexadecimal digits write. -/
def hexCode? (a b c d : Char) : Option Nat := do
  let a ← hexValue? a
  let b ← hexValue? b
  let c ← hexValue? c
  let d ← hexValue? d
  return ((a * 16 + b) * 16 + c) * 16 + d

/-- What a letter after a backslash stands for. -/
def escaped? (c : Char) : Option Char :=
  let n := c.toNat
  if n = 0x22 ∨ n = 0x5C ∨ n = 0x2F then some c
  else if c = 'b' then some (Char.ofNat 8)
  else if c = 'f' then some (Char.ofNat 12)
  else if c = 'n' then some '\n'
  else if c = 'r' then some '\r'
  else if c = 't' then some '\t'
  else none

/-- The rest of a string after its opening quote; `seen` holds its pieces, last first. -/
def takeString (seen : List Piece) : List Char → Option (List Piece × List Char)
  | [] => none
  | '\\' :: 'u' :: a :: b :: c :: d :: cs =>
    match hexCode? a b c d with
    | some n => takeString (.code n :: seen) cs
    | none => none
  | '\\' :: c :: cs =>
    match escaped? c with
    | some e => takeString (.char e :: seen) cs
    | none => none
  | c :: cs =>
    if c.toNat = 0x22 then some (seen.reverse, cs)
    else if c.toNat < 32 ∨ c.toNat = 0x5C then none
    else takeString (.char c :: seen) cs

/-- The rest of a text that starts with a word. -/
def takeWord (word : String) (cs : List Char) : Option (List Char) :=
  if word.toList.isPrefixOf cs then some (cs.drop word.length) else none

/-- The string at the start of a text, after blanks. -/
def takeKey (cs : List Char) : Option (List Piece × List Char) :=
  match skip cs with
  | c :: r => if c.toNat = 0x22 then takeString [] r else none
  | [] => none

/-- The rest of a text after blanks and one character. -/
def takeMark (c : Char) (cs : List Char) : Option (List Char) :=
  match skip cs with
  | d :: r => if d = c then some r else none
  | [] => none

mutual

/-- The form at the start of a text. The number bounds the steps; it is the length of the
text, since every step takes a character. -/
def take : Nat → List Char → Option (Form × List Char)
  | 0, _ => none
  | fuel + 1, cs =>
    match skip cs with
    | [] => none
    | c :: r =>
      if c = 'n' then (takeWord "null" (c :: r)).map fun rest => (.null, rest)
      else if c = 't' then (takeWord "true" (c :: r)).map fun rest => (.bool true, rest)
      else if c = 'f' then (takeWord "false" (c :: r)).map fun rest => (.bool false, rest)
      else if c.toNat = 0x22 then (takeString [] r).map fun (s, rest) => (.string s, rest)
      else if c = '[' then
        match takeMark ']' r with
        | some rest => some (.array [], rest)
        | none => (takeItems fuel [] r).map fun (items, rest) => (.array items, rest)
      else if c.toNat = 0x7B then
        match takeMark (Char.ofNat 0x7D) r with
        | some rest => some (.object [], rest)
        | none => (takeFields fuel [] r).map fun (fields, rest) => (.object fields, rest)
      else (takeNumeral (c :: r)).map fun (n, rest) => (.number n, rest)

/-- The items of an array up to its end. -/
def takeItems : Nat → List Form → List Char → Option (List Form × List Char)
  | 0, _, _ => none
  | fuel + 1, seen, cs =>
    match take fuel cs with
    | none => none
    | some (item, rest) =>
      match skip rest with
      | ',' :: r => takeItems fuel (item :: seen) r
      | ']' :: r => some ((item :: seen).reverse, r)
      | _ => none

/-- The fields of an object up to its end. -/
def takeFields : Nat → List (List Piece × Form) → List Char →
    Option (List (List Piece × Form) × List Char)
  | 0, _, _ => none
  | fuel + 1, seen, cs =>
    match takeKey cs with
    | none => none
    | some (key, rest) =>
      match takeMark ':' rest with
      | none => none
      | some rest =>
        match take fuel rest with
        | none => none
        | some (value, rest) =>
          match skip rest with
          | ',' :: r => takeFields fuel ((key, value) :: seen) r
          | c :: r =>
            if c.toNat = 0x7D then some (((key, value) :: seen).reverse, r) else none
          | [] => none

end

/-- The form of a document. -/
def read? (cs : List Char) : Option Form :=
  match take (2 * cs.length + 2) cs with
  | some (form, rest) => if (skip rest).isEmpty then some form else none
  | none => none

end Form

/-- The characters of a string. The numbers of a pair of escapes make one character; half
of a pair is refused. -/
def Piece.characters? : List Piece → Option (List Char)
  | [] => some []
  | .char c :: rest => (characters? rest).map (c :: ·)
  | [.code n] => if n < 0xD800 ∨ 0xE000 ≤ n then some [Char.ofNat n] else none
  | .code n :: .char c :: rest =>
    if n < 0xD800 ∨ 0xE000 ≤ n then (characters? rest).map fun cs => Char.ofNat n :: c :: cs
    else none
  | .code n :: .code m :: rest =>
    if n < 0xD800 ∨ 0xE000 ≤ n then
      (characters? (.code m :: rest)).map (Char.ofNat n :: ·)
    else if n < 0xDC00 ∧ 0xDC00 ≤ m ∧ m < 0xE000 then
      (characters? rest).map
        (Char.ofNat (0x10000 + (n - 0xD800) * 1024 + (m - 0xDC00)) :: ·)
    else none

/-- A string's value. -/
def Piece.text? (pieces : List Piece) : Option String :=
  (Piece.characters? pieces).map String.ofList

namespace Numeral

/-- The largest number that a significand may reach. -/
def maxSignificand : Nat := Nat.pow 2 64 - 1

/-- Appends digits to a significand as long as it fits; the digits that did not fit are
left. -/
def gather : Nat → List Char → Nat × List Char
  | n, [] => (n, [])
  | n, c :: cs =>
    let next := 10 * n + (c.toNat - 48)
    if next ≤ maxSignificand then gather next cs else (n, c :: cs)

/-- The significand times a power of ten. Powers up to 308 are one multiplication or
division; smaller ones are approached by steps of 308. Too large a number is refused. -/
def scale? : Nat → Double → Int → Option Double
  | 0, x, _ => some x
  | fuel + 1, x, e =>
    let power (k : Nat) : Double := Scientific.toDouble false ⟨1, k⟩
    if e.natAbs ≤ 308 then
      if 0 ≤ e then
        let y := x.mul (power e.natAbs)
        if y.isInfinite then none else some y
      else some (x.div (power e.natAbs))
    else if x.isZero then some x
    else if 0 ≤ e then none
    else scale? fuel (x.div (power 308)) (e + 308)

/-- The exponent as written, held within 32 bits with a sign; none if it has more. -/
def writtenExponent? (n : Numeral) : Option Int :=
  let e : Int := digitsValue n.exponent
  if Nat.pow 2 31 ≤ e then none else some (if n.exponentNegative then -e else e)

/-- Holds a number within 32 bits with a sign. -/
def clamp (e : Int) : Int := max (-(Nat.pow 2 31 : Int)) (min e (Nat.pow 2 31 - 1))

/-- The value of a numeral with a point, with an exponent, or with more digits than fit. -/
def decimal? (n : Numeral) : Option Double :=
  let (significand, left) := gather 0 n.whole
  let (significand, unused) := gather significand n.fraction
  let places : Int := left.length - (n.fraction.length - unused.length : Nat)
  let signed (x : Double) : Double := if n.negative then x.neg else x
  match n.writtenExponent? with
  | some e => (scale? 8 (.ofInt significand) (clamp (places + e))).map signed
  | none =>
    if significand ≠ 0 ∧ !n.exponentNegative then none else some (signed (.ofInt 0))

/-- The value of a numeral. -/
def value? (n : Numeral) : Option Numeric :=
  let whole := digitsValue n.whole
  if n.isDecimal ∨ maxSignificand < whole then n.decimal?.map .float
  else if !n.negative then some (.natural (UInt64.ofNat whole))
  else if 0 < whole ∧ whole ≤ Nat.pow 2 63 then some (.negative (Int64.ofInt (-whole)))
  else some (.float (Double.neg (.ofInt whole)))

end Numeral

mutual

/-- The value of a form. The number is that of the containers which may still be opened. -/
def ofForm? : Nat → Form → Option Json
  | _, .null => some .null
  | _, .bool b => some (.bool b)
  | _, .number n => n.value?.map .number
  | _, .string pieces => (Piece.text? pieces).map .string
  | 0, .array _ => none
  | room + 1, .array items => (ofForms? room items).map .array
  | 0, .object _ => none
  | room + 1, .object fields => (ofFields? room [] fields).map .object

/-- The values of items. -/
def ofForms? : Nat → List Form → Option (List Json)
  | _, [] => some []
  | room, item :: items =>
    match ofForm? room item with
    | none => none
    | some value => (ofForms? room items).map (value :: ·)

/-- The values of fields; the last of several with one key counts. -/
def ofFields? : Nat → List (String × Json) → List (List Piece × Form) →
    Option (List (String × Json))
  | _, seen, [] => some seen
  | room, seen, (key, form) :: fields =>
    match Piece.text? key, ofForm? room form with
    | some key, some value => ofFields? room (setField key value seen) fields
    | _, _ => none

end

/-- How deeply containers may be nested. -/
def maxDepth : Nat := 127

end SchemaMigration.Json
