import SchemaMigration.Msgpack.Basic
import SchemaMigration.Rows
/-! # Values on the wire

Arguments go out as MessagePack and results come back as MessagePack. A point in time goes
out as whole seconds, and a map comes back as its text; everything else keeps its kind. -/
namespace SchemaMigration.Tarantool

open Number

mutual

/-- An argument as it is sent. -/
def toMsgpack : Value → Msgpack
  | .null => .nil
  | .bool b => .bool b
  | .int n => .ofInt64 n
  | .uint n => .natural n
  | .float x => .double x
  | .text s => .ofText s
  | .bytes bs => .binary bs
  | .time t => .ofInt64 (Int64.ofInt t.seconds)
  | .tuple vs => .array (toMsgpackAll vs)

/-- Arguments as they are sent. -/
def toMsgpackAll : List Value → List Msgpack
  | [] => []
  | v :: vs => toMsgpack v :: toMsgpackAll vs

end

mutual

/-- A result as a value. -/
def ofMsgpack : Msgpack → Value
  | .nil => .null
  | .bool b => .bool b
  | .natural n => .uint n
  | .negative n => .int n
  | .single x => .float x.toDouble
  | .double x => .float x
  | .string bytes =>
    match Text.Utf8.decodeString bytes with
    | .ok s => .text s
    | .error _ => .null
  | .binary bytes => .bytes bytes
  | .extension _ bytes => .bytes bytes
  | .array items => .tuple (ofMsgpackAll items)
  | .map entries => .text (Msgpack.display (.map entries))

/-- Results as values. -/
def ofMsgpackAll : List Msgpack → List Value
  | [] => []
  | item :: items => ofMsgpack item :: ofMsgpackAll items

end

/-- Whether a result is an array. -/
def isArray : Msgpack → Bool
  | .array _ => true
  | _ => false

/-- The results that make up the rows: those inside a single array of arrays, which is what
a selection returns, and else the results themselves. -/
def rowResults : List Msgpack → List Msgpack
  | [.array items] => if items.all isArray then items else [.array items]
  | results => results

/-- The rows of an evaluation: an array spreads into columns. -/
def rowsOfResults (results : List Msgpack) : Rows :=
  let rows := (rowResults results).map fun r => Rows.spread (ofMsgpack r)
  let width := match rows with
    | [] => 0
    | row :: _ => row.length
  Rows.ofRows ((List.range width).map fun i => s!"field{i + 1}") rows

end SchemaMigration.Tarantool
