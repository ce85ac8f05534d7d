import SchemaMigration.Number.Shortest
import SchemaMigration.Text.Printable
import SchemaMigration.Text.Utf8
/-! # MessagePack values

The values of the format, and the text in which one is shown. An integer from zero on is a
natural one, whatever form it was read from. -/
namespace SchemaMigration

open Number

/-- A value of MessagePack. -/
inductive Msgpack where
  | nil
  | bool (b : Bool)
  | natural (n : UInt64)
  /-- An integer below zero. -/
  | negative (n : Int64)
  | single (x : Single)
  | double (x : Double)
  /-- The bytes of a string, which are UTF-8 unless the sender was careless. -/
  | string (bytes : List UInt8)
  | binary (bytes : List UInt8)
  | array (items : List Msgpack)
  | map (entries : List (Msgpack × Msgpack))
  | extension (kind : Int8) (bytes : List UInt8)
  deriving Repr

namespace Msgpack

/-- A text as a value. -/
def ofText (s : String) : Msgpack := .string (Text.Utf8.encodeString s)

/-- A signed integer as a value. -/
def ofInt64 (n : Int64) : Msgpack :=
  if n < 0 then .negative n else .natural (UInt64.ofNat n.toInt.toNat)

/-- The value of an integer from zero on. -/
def natural? : Msgpack → Option UInt64
  | .natural n => some n
  | _ => none

/-- The text of a string that is UTF-8. -/
def text? : Msgpack → Option String
  | .string bytes => (Text.Utf8.decodeString bytes).toOption
  | _ => none

/-- Bytes as a list of numbers. -/
def showBytes (bytes : List UInt8) : String :=
  "[" ++ ", ".intercalate (bytes.map fun b => toString b.toNat) ++ "]"

mutual

/-- The text of a value. -/
def display : Msgpack → String
  | .nil => "nil"
  | .bool b => if b then "true" else "false"
  | .natural n => toString n.toNat
  | .negative n => toString n.toInt
  | .single x => x.display
  | .double x => x.display
  | .string bytes =>
    match Text.Utf8.decode bytes with
    | .ok cs => String.ofList (Text.inspect cs)
    | .error _ => showBytes bytes
  | .binary bytes => showBytes bytes
  | .array items => "[" ++ ", ".intercalate (displayItems items) ++ "]"
  | .map entries => "\x7b" ++ ", ".intercalate (displayEntries entries) ++ "\x7d"
  | .extension kind bytes => "[" ++ toString kind.toInt ++ ", " ++ showBytes bytes ++ "]"

/-- The texts of items. -/
def displayItems : List Msgpack → List String
  | [] => []
  | item :: items => item.display :: displayItems items

/-- The texts of entries. -/
def displayEntries : List (Msgpack × Msgpack) → List String
  | [] => []
  | (key, value) :: entries => (key.display ++ ": " ++ value.display) :: displayEntries entries

end

end Msgpack

end SchemaMigration
