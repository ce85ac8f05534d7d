import SchemaMigration.Msgpack.Basic
/-! # MessagePack in bytes

Each value is written in its shortest form; the bytes of a string that is no text are written
as binary data. Every form is read, down to a bounded depth: a value takes one level, and what
it contains another; what a string or an extension contains is binary data in turn. -/
namespace SchemaMigration.Msgpack

open Number

/-- A natural number in as many bytes, most significant first. -/
def bigEndian : Nat → Nat → List UInt8
  | 0, _ => []
  | width + 1, n => (n / Nat.pow 256 width).toUInt8 :: bigEndian width n

/-- The number that bytes write, most significant first. -/
def ofBigEndian (bytes : List UInt8) : Nat := bytes.foldl (fun n b => 256 * n + b.toNat) 0

/-- A length, behind the marker for its width. -/
def writeLength (short : Nat) (shortBase : Nat) (m8 : Option UInt8) (m16 m32 : UInt8) (n : Nat) :
    List UInt8 :=
  if n < short then [(shortBase + n).toUInt8]
  else match m8 with
    | some m8 =>
      if n < 256 then m8 :: bigEndian 1 n
      else if n < 65536 then m16 :: bigEndian 2 n
      else m32 :: bigEndian 4 n
    | none => if n < 65536 then m16 :: bigEndian 2 n else m32 :: bigEndian 4 n

/-- A natural number. -/
def writeNatural (n : Nat) : List UInt8 :=
  if n < 128 then [n.toUInt8]
  else if n < 256 then 0xCC :: bigEndian 1 n
  else if n < 65536 then 0xCD :: bigEndian 2 n
  else if n < 4294967296 then 0xCE :: bigEndian 4 n
  else 0xCF :: bigEndian 8 n

/-- An integer below zero, in two's complement. -/
def writeNegative (n : Int) : List UInt8 :=
  if -32 ≤ n then [(256 + n).toNat.toUInt8]
  else if -128 ≤ n then 0xD0 :: bigEndian 1 (256 + n).toNat
  else if -32768 ≤ n then 0xD1 :: bigEndian 2 (65536 + n).toNat
  else if -2147483648 ≤ n then 0xD2 :: bigEndian 4 (4294967296 + n).toNat
  else 0xD3 :: bigEndian 8 (18446744073709551616 + n).toNat

/-- The bytes of an extension. -/
def writeExtension (kind : Int8) (bytes : List UInt8) : List UInt8 :=
  let n := bytes.length
  let head : List UInt8 :=
    if n = 1 then [0xD4]
    else if n = 2 then [0xD5]
    else if n = 4 then [0xD6]
    else if n = 8 then [0xD7]
    else if n = 16 then [0xD8]
    else writeLength 0 0 (some 0xC7) 0xC8 0xC9 n
  head ++ kind.toUInt8 :: bytes

/-- Binary data, behind its length. -/
def writeBinary (bytes : List UInt8) : List UInt8 :=
  writeLength 0 0 (some 0xC4) 0xC5 0xC6 bytes.length ++ bytes

/-- A string, behind its length. -/
def writeString (bytes : List UInt8) : List UInt8 :=
  match Text.Utf8.decode bytes with
  | .ok _ => writeLength 32 0xA0 (some 0xD9) 0xDA 0xDB bytes.length ++ bytes
  | .error _ => writeBinary bytes

mutual

/-- The bytes of a value. -/
def write : Msgpack → List UInt8
  | .nil => [0xC0]
  | .bool b => [if b then 0xC3 else 0xC2]
  | .natural n => writeNatural n.toNat
  | .negative n => if n < 0 then writeNegative n.toInt else writeNatural n.toInt.toNat
  | .single x => 0xCA :: bigEndian 4 x.bits.toNat
  | .double x => 0xCB :: bigEndian 8 x.bits.toNat
  | .string bytes => writeString bytes
  | .binary bytes => writeBinary bytes
  | .array items => writeLength 16 0x90 none 0xDC 0xDD items.length ++ writeItems items
  | .map entries => writeLength 16 0x80 none 0xDE 0xDF entries.length ++ writeEntries entries
  | .extension kind bytes => writeExtension kind bytes

/-- The bytes of items. -/
def writeItems : List Msgpack → List UInt8
  | [] => []
  | item :: items => item.write ++ writeItems items

/-- The bytes of entries. -/
def writeEntries : List (Msgpack × Msgpack) → List UInt8
  | [] => []
  | (key, value) :: entries => key.write ++ value.write ++ writeEntries entries

end

/-- As many bytes from the front, if there are so many, and the rest. -/
def takeBytes (n : Nat) (bs : List UInt8) : Option (List UInt8 × List UInt8) :=
  let front := bs.take n
  if front.length = n then some (front, bs.drop n) else none

/-- A number of a width. -/
def takeNumber (width : Nat) (bs : List UInt8) : Option (Nat × List UInt8) :=
  (takeBytes width bs).map fun (front, rest) => (ofBigEndian front, rest)

/-- An integer in two's complement of a width. -/
def takeSigned (width : Nat) (bs : List UInt8) : Option (Msgpack × List UInt8) :=
  (takeNumber width bs).map fun (n, rest) =>
    (if n < Nat.pow 256 width / 2 then .natural (UInt64.ofNat n)
      else .negative (Int64.ofInt ((n : Int) - Nat.pow 256 width)), rest)

/-- As many items, each read by the function. -/
def takeItems (item : List UInt8 → Option (Msgpack × List UInt8)) :
    Nat → List Msgpack → List UInt8 → Option (List Msgpack × List UInt8)
  | 0, seen, bs => some (seen.reverse, bs)
  | n + 1, seen, bs =>
    match item bs with
    | some (v, rest) => takeItems item n (v :: seen) rest
    | none => none

/-- As many entries, each a key and a value. -/
def takeEntries (item : List UInt8 → Option (Msgpack × List UInt8)) :
    Nat → List (Msgpack × Msgpack) → List UInt8 → Option (List (Msgpack × Msgpack) × List UInt8)
  | 0, seen, bs => some (seen.reverse, bs)
  | n + 1, seen, bs =>
    match item bs with
    | none => none
    | some (k, rest) =>
      match item rest with
      | none => none
      | some (v, rest) => takeEntries item n ((k, v) :: seen) rest

/-- What follows a marker. -/
inductive Shape where
  | value (v : Msgpack)
  | number (width : Nat)
  | signed (width : Nat)
  | single
  | double
  | string (length : Nat)
  | stringOf (width : Nat)
  | binaryOf (width : Nat)
  | array (length : Nat)
  | arrayOf (width : Nat)
  | map (length : Nat)
  | mapOf (width : Nat)
  | extension (length : Nat)
  | extensionOf (width : Nat)

/-- The meaning of a marker. The one that is reserved counts as nil. -/
def shape (marker : UInt8) : Shape :=
  let n := marker.toNat
  if n < 0x80 then .value (.natural (UInt64.ofNat n))
  else if n < 0x90 then .map (n - 0x80)
  else if n < 0xA0 then .array (n - 0x90)
  else if n < 0xC0 then .string (n - 0xA0)
  else if 0xE0 ≤ n then .value (.negative (Int64.ofInt ((n : Int) - 256)))
  else match n with
    | 0xC2 => .value (.bool false)
    | 0xC3 => .value (.bool true)
    | 0xC4 => .binaryOf 1
    | 0xC5 => .binaryOf 2
    | 0xC6 => .binaryOf 4
    | 0xC7 => .extensionOf 1
    | 0xC8 => .extensionOf 2
    | 0xC9 => .extensionOf 4
    | 0xCA => .single
    | 0xCB => .double
    | 0xCC => .number 1
    | 0xCD => .number 2
    | 0xCE => .number 4
    | 0xCF => .number 8
    | 0xD0 => .signed 1
    | 0xD1 => .signed 2
    | 0xD2 => .signed 4
    | 0xD3 => .signed 8
    | 0xD4 => .extension 1
    | 0xD5 => .extension 2
    | 0xD6 => .extension 4
    | 0xD7 => .extension 8
    | 0xD8 => .extension 16
    | 0xD9 => .stringOf 1
    | 0xDA => .stringOf 2
    | 0xDB => .stringOf 4
    | 0xDC => .arrayOf 2
    | 0xDD => .arrayOf 4
    | 0xDE => .mapOf 2
    | 0xDF => .mapOf 4
    | _ => .value .nil

/-- The payload of binary data, for which one level must be left. -/
def takePayload (depth : Nat) (make : List UInt8 → Msgpack) (length : Nat) (bs : List UInt8) :
    Option (Msgpack × List UInt8) :=
  if depth = 0 then none
  else (takeBytes length bs).map fun (front, rest) => (make front, rest)

/-- The text of a string, which is binary data one level below; two levels must be left. -/
def takeText (depth : Nat) (length : Nat) (bs : List UInt8) : Option (Msgpack × List UInt8) :=
  takePayload (depth - 1) .string length bs

/-- The kind and the payload of an extension, for which two levels must be left. -/
def takeExtension (depth : Nat) (length : Nat) (bs : List UInt8) :
    Option (Msgpack × List UInt8) :=
  match bs with
  | [] => none
  | kind :: bs => takePayload (depth - 1) (.extension kind.toInt8) length bs

/-- A value that contains no other values, given the levels that are left to it. -/
def takeLeaf (depth : Nat) (s : Shape) (bs : List UInt8) : Option (Msgpack × List UInt8) :=
  match s with
  | .value v => some (v, bs)
  | .number width => (takeNumber width bs).map fun (n, rest) => (.natural (UInt64.ofNat n), rest)
  | .signed width => takeSigned width bs
  | .single => (takeNumber 4 bs).map fun (n, rest) => (.single ⟨n.toUInt32⟩, rest)
  | .double => (takeNumber 8 bs).map fun (n, rest) => (.double (.ofBits n), rest)
  | .string length => takeText depth length bs
  | .stringOf width => (takeNumber width bs).bind fun (n, rest) => takeText depth n rest
  | .binaryOf width => (takeNumber width bs).bind fun (n, rest) => takePayload depth .binary n rest
  | .extension length => takeExtension depth length bs
  | .extensionOf width => (takeNumber width bs).bind fun (n, rest) => takeExtension depth n rest
  | _ => none

/-- The value at the front of bytes, within a number of levels, and the rest. -/
def take : Nat → List UInt8 → Option (Msgpack × List UInt8)
  | _, [] => none
  | 0, _ :: _ => none
  | 1, marker :: bs => takeLeaf 0 (shape marker) bs
  | depth + 2, marker :: bs =>
    let array (n : Nat) (bs : List UInt8) : Option (Msgpack × List UInt8) :=
      (takeItems (take depth) n [] bs).map fun (items, rest) => (.array items, rest)
    let map (n : Nat) (bs : List UInt8) : Option (Msgpack × List UInt8) :=
      (takeEntries (take depth) n [] bs).map fun (entries, rest) => (.map entries, rest)
    match shape marker with
    | .array n => array n bs
    | .arrayOf width => (takeNumber width bs).bind fun (n, rest) => array n rest
    | .map n => map n bs
    | .mapOf width => (takeNumber width bs).bind fun (n, rest) => map n rest
    | s => takeLeaf (depth + 1) s bs

/-- The levels that reading allows. -/
def maxDepth : Nat := 1024

/-- The value at the front of bytes, and the rest. -/
def read (bs : List UInt8) : Option (Msgpack × List UInt8) := take maxDepth bs

end SchemaMigration.Msgpack
