import SchemaMigration.Failure
import SchemaMigration.Number.Reading
import SchemaMigration.Text.Blank
import SchemaMigration.Value
/-! # Reading values into destinations

A destination is the type that a caller wants. Integers go into every integer type that
holds them, truth values count as zero and one, numbers may stand in a text, text and bytes
change into each other when they are UTF-8, and seconds become points in time. Nothing is
ever cut off or wrapped: what does not fit is a failure that names both kinds. -/
namespace SchemaMigration

open Number

/-- The integer destinations. -/
inductive IntegerType where
  | i8 | i16 | i32 | i64
  | u8 | u16 | u32 | u64 | usize
  deriving DecidableEq, Repr

namespace IntegerType

/-- Whether negative numbers belong to the type. -/
def isSigned : IntegerType → Bool
  | i8 | i16 | i32 | i64 => true
  | u8 | u16 | u32 | u64 | usize => false

/-- The number of bits of the type. -/
def width : IntegerType → Nat
  | i8 | u8 => 8
  | i16 | u16 => 16
  | i32 | u32 => 32
  | i64 | u64 | usize => 64

/-- The smallest number of the type. -/
def low (t : IntegerType) : Int := if t.isSigned then -(Nat.pow 2 (t.width - 1) : Int) else 0

/-- The largest number of the type. -/
def high (t : IntegerType) : Int :=
  if t.isSigned then (Nat.pow 2 (t.width - 1) : Int) - 1 else (Nat.pow 2 t.width : Int) - 1

/-- Whether a number belongs to the type. -/
def holds (t : IntegerType) (n : Int) : Bool := t.low ≤ n && n ≤ t.high

/-- The name of the type in errors; a size is read as a number of 64 bits first. -/
def name : IntegerType → String
  | i8 => "i8"
  | i16 => "i16"
  | i32 => "i32"
  | i64 => "i64"
  | u8 => "u8"
  | u16 => "u16"
  | u32 => "u32"
  | u64 | usize => "u64"

/-- The integer that a text of the type's grammar denotes. -/
def readText? (t : IntegerType) (cs : List Char) : Option Int :=
  if t.isSigned then readSigned? cs else (readUnsigned? cs).map Int.ofNat

end IntegerType

/-- What a caller wants to read a value into. -/
inductive Scalar where
  | integer (t : IntegerType)
  | single
  | double
  | bool
  | string
  | bytes
  | time
  | value
  deriving DecidableEq, Repr

/-- A destination, which may also take a null. -/
structure Destination where
  scalar : Scalar
  optional : Bool
  deriving DecidableEq, Repr

/-- What was read: a value of the destination's kind, or a number of 32 bits. -/
inductive Datum where
  | value (v : Value)
  | single (x : Single)
  deriving Repr

namespace Value

/-- The failure for a value that its destination has no rule for. -/
def mismatch (v : Value) (destination : String) : Failure :=
  match v with
  | null => .nilValue destination
  | tuple _ => .notScalar destination
  | v => .conversion v.kind destination

/-- The integer that a value denotes, read by the grammar of the type when it is a text. -/
def denotes? (t : IntegerType) : Value → Option Int
  | int n => some n.toInt
  | uint n => some n.toNat
  | bool b => some (if b then 1 else 0)
  | text s => t.readText? (Text.trim s.toList)
  | _ => none

/-- Whether the kind of a value has a rule for integers. -/
def isIntegral : Value → Bool
  | int _ | uint _ | bool _ | text _ => true
  | _ => false

/-- Reads an integer of a type. -/
def toInteger (t : IntegerType) (v : Value) : Except Failure Int :=
  if v.isIntegral then
    match v.denotes? t with
    | some n => if t.holds n then .ok n else .error (.conversion v.kind t.name)
    | none => .error (.conversion v.kind t.name)
  else .error (v.mismatch t.name)

/-- Reads a number of 64 bits. -/
def toDouble (v : Value) : Except Failure Double :=
  match v with
  | float x => .ok x
  | int n => .ok (.ofInt n.toInt)
  | uint n => .ok (.ofInt n.toNat)
  | text s =>
    match readDouble? (Text.trim s.toList) with
    | some x => .ok x
    | none => .error (.conversion "text" "f64")
  | v => .error (v.mismatch "f64")

/-- Reads a number of 32 bits, rounded from 64. -/
def toSingle (v : Value) : Except Failure Single :=
  match v.toDouble with
  | .ok x => .ok x.toSingle
  | .error _ => .error (v.mismatch "f32")

/-- Reads a truth value. -/
def toBool (v : Value) : Except Failure Bool :=
  match v with
  | bool b => .ok b
  | int n => if n = 0 then .ok false else if n = 1 then .ok true else .error (v.mismatch "bool")
  | uint n => if n = 0 then .ok false else if n = 1 then .ok true else .error (v.mismatch "bool")
  | text s =>
    if s = "true" ∨ s = "t" ∨ s = "1" then .ok true
    else if s = "false" ∨ s = "f" ∨ s = "0" then .ok false
    else .error (v.mismatch "bool")
  | v => .error (v.mismatch "bool")

/-- Reads a text. -/
def toText (v : Value) : Except Failure String :=
  match v with
  | text s => .ok s
  | bytes bs =>
    match Text.Utf8.decodeString bs with
    | .ok s => .ok s
    | .error _ => .error (v.mismatch "String")
  | null | tuple _ => .error (v.mismatch "String")
  | v => .ok v.display

/-- Reads bytes. -/
def toBytes (v : Value) : Except Failure (List UInt8) :=
  match v with
  | bytes bs => .ok bs
  | text s => .ok (Text.Utf8.encodeString s)
  | v => .error (v.mismatch "Vec<u8>")

/-- Reads a point in time. -/
def toInstant (v : Value) : Except Failure Instant :=
  let fail : Except Failure Instant := .error (v.mismatch "DateTime<Utc>")
  let seconds (n : Int) : Except Failure Instant :=
    match Instant.ofSeconds? n with
    | some t => .ok t
    | none => fail
  match v with
  | time t => .ok t
  | int n => seconds n.toInt
  | uint n => seconds n.toNat
  | text s =>
    match Calendar.read? s.toList with
    | some t => .ok t
    | none => fail
  | _ => fail

/-- An integer as a value of the kind of its type. -/
def ofInteger (t : IntegerType) (n : Int) : Value :=
  if t.isSigned then .int (Int64.ofInt n) else .uint (UInt64.ofNat n.toNat)

/-- Reads a value into a scalar destination. -/
def readScalar (d : Scalar) (v : Value) : Except Failure Datum :=
  match d with
  | .integer t => (v.toInteger t).map fun n => .value (ofInteger t n)
  | .single => v.toSingle.map .single
  | .double => v.toDouble.map fun x => .value (.float x)
  | .bool => v.toBool.map fun b => .value (.bool b)
  | .string => v.toText.map fun s => .value (.text s)
  | .bytes => v.toBytes.map fun bs => .value (.bytes bs)
  | .time => v.toInstant.map fun t => .value (.time t)
  | .value => .ok (.value v)

/-- Reads a value into a destination. -/
def read (d : Destination) (v : Value) : Except Failure Datum :=
  if d.optional && v.isNull then .ok (.value .null) else v.readScalar d.scalar

end Value

end SchemaMigration
