import SchemaMigration.Number.Shortest
/-! # Data in JSON

A number keeps whether it was written as an integer, as long as it fits 64 bits. An object
holds each key once, and its keys ascend. -/
namespace SchemaMigration

open Number

namespace Json

/-- A number of a document. -/
inductive Numeric where
  | natural (n : UInt64)
  /-- A number below zero. -/
  | negative (n : Int64)
  | float (x : Double)
  deriving DecidableEq, Repr

namespace Numeric

/-- The number, if it is an integer from zero on. -/
def toUnsigned? : Numeric → Option UInt64
  | natural n => some n
  | _ => none

/-- The number, if it is an integer of 64 bits with a sign. -/
def toSigned? : Numeric → Option Int64
  | natural n => if n.toNat < Nat.pow 2 63 then some (Int64.ofNat n.toNat) else none
  | negative n => some n
  | float _ => none

/-- The nearest floating-point number. -/
def toDouble : Numeric → Double
  | natural n => .ofInt n.toNat
  | negative n => .ofInt n.toInt
  | float x => x

/-- The written form. -/
def display : Numeric → String
  | natural n => toString n.toNat
  | negative n => toString n.toInt
  | float x => x.dataText

end Numeric

end Json

/-- A value of JSON. -/
inductive Json where
  | null
  | bool (b : Bool)
  | number (n : Json.Numeric)
  | string (s : String)
  | array (items : List Json)
  | object (fields : List (String × Json))
  deriving Repr

namespace Json

/-- Puts a field at its place; it replaces a field of the same key. -/
def setField (key : String) (value : Json) : List (String × Json) → List (String × Json)
  | [] => [(key, value)]
  | (k, v) :: rest =>
    if key = k then (key, value) :: rest
    else if key < k then (key, value) :: (k, v) :: rest
    else (k, v) :: setField key value rest

/-- A control character as `\u` and four digits. -/
def escapeCode (n : Nat) : List Char :=
  let digit (d : Nat) : Char := if d < 10 then Char.ofNat (48 + d) else Char.ofNat (87 + d)
  ['\\', 'u', '0', '0', digit (n / 16), digit (n % 16)]

/-- A character inside a string. -/
def escape (c : Char) : List Char :=
  let n := c.toNat
  if n = 0x22 ∨ n = 0x5C then ['\\', c]
  else if n = 8 then ['\\', 'b']
  else if n = 9 then ['\\', 't']
  else if n = 10 then ['\\', 'n']
  else if n = 12 then ['\\', 'f']
  else if n = 13 then ['\\', 'r']
  else if n < 32 then escapeCode n
  else [c]

/-- A string in quotes. -/
def quote (s : String) : String :=
  let mark := Char.ofNat 0x22
  String.ofList (mark :: s.toList.flatMap escape ++ [mark])

mutual

/-- The written form without spaces. -/
def compact : Json → String
  | null => "null"
  | bool b => if b then "true" else "false"
  | number n => n.display
  | string s => quote s
  | array items => "[" ++ ",".intercalate (compactItems items) ++ "]"
  | object fields => "\x7b" ++ ",".intercalate (compactFields fields) ++ "\x7d"

/-- The written forms of items. -/
def compactItems : List Json → List String
  | [] => []
  | item :: items => item.compact :: compactItems items

/-- The written forms of fields. -/
def compactFields : List (String × Json) → List String
  | [] => []
  | (key, value) :: fields => (quote key ++ ":" ++ value.compact) :: compactFields fields

end

end Json

end SchemaMigration
