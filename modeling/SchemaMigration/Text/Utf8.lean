/-! # UTF-8

Bytes are read by a machine that takes one byte at a time. It stops at the first byte
that cannot continue the character begun, so a fault is known by the index at which its
character begins and by the number of bytes up to the stop. Strict reading reports the
fault; lossy reading puts U+FFFD in its place and goes on. -/
namespace SchemaMigration.Text.Utf8

/-- A character of which some bytes are still missing. -/
structure Begun where
  /-- The bits read so far. -/
  value : Nat
  /-- How many bytes were read. -/
  size : Nat
  /-- How many bytes are missing, less one. -/
  more : Nat
  /-- The next byte lies between `low` and `high`. -/
  low : UInt8
  high : UInt8

/-- What one byte does at the start of a character. -/
inductive Lead where
  | ascii (c : Char)
  | begun (b : Begun)
  | wrong

/-- The first byte of a character fixes how many follow and the range of the next, which
leaves out overlong forms, surrogates and values above U+10FFFF. -/
def lead (b : UInt8) : Lead :=
  let n := b.toNat
  if n < 0x80 then .ascii (Char.ofNat n)
  else if n < 0xC2 then .wrong
  else if n < 0xE0 then .begun ⟨n % 32, 1, 0, 0x80, 0xBF⟩
  else if n = 0xE0 then .begun ⟨0, 1, 1, 0xA0, 0xBF⟩
  else if n = 0xED then .begun ⟨13, 1, 1, 0x80, 0x9F⟩
  else if n < 0xF0 then .begun ⟨n % 16, 1, 1, 0x80, 0xBF⟩
  else if n = 0xF0 then .begun ⟨0, 1, 2, 0x90, 0xBF⟩
  else if n < 0xF4 then .begun ⟨n % 8, 1, 2, 0x80, 0xBF⟩
  else if n = 0xF4 then .begun ⟨4, 1, 2, 0x80, 0x8F⟩
  else .wrong

/-- What one byte does inside a character. -/
inductive Follow where
  | ended (c : Char)
  | begun (b : Begun)
  | wrong

/-- A byte that follows carries six bits. -/
def follow (p : Begun) (b : UInt8) : Follow :=
  if p.low ≤ b ∧ b ≤ p.high then
    let value := p.value * 64 + b.toNat % 64
    match p.more with
    | 0 => .ended (Char.ofNat value)
    | more + 1 => .begun ⟨value, p.size + 1, more, 0x80, 0xBF⟩
  else .wrong

/-- Where a text stops being UTF-8: the index of the character, and the number of bytes
that are wrong, or none when the text ends inside the character. -/
structure Fault where
  index : Nat
  length : Option Nat
  deriving DecidableEq, Repr

/-- The wording of a fault. -/
def Fault.message (f : Fault) : String :=
  match f.length with
  | some n => s!"invalid utf-8 sequence of {n} bytes from index {f.index}"
  | none => s!"incomplete utf-8 byte sequence from index {f.index}"

/-- The characters read so far, last first, the character begun and the index reached. -/
structure Reader where
  chars : List Char
  begun : Option Begun
  index : Nat

/-- Strict reading of one more byte. -/
def Reader.step (r : Reader) (b : UInt8) : Except Fault Reader :=
  match r.begun with
  | none =>
    match lead b with
    | .ascii c => .ok ⟨c :: r.chars, none, r.index + 1⟩
    | .begun p => .ok ⟨r.chars, some p, r.index + 1⟩
    | .wrong => .error ⟨r.index, some 1⟩
  | some p =>
    match follow p b with
    | .ended c => .ok ⟨c :: r.chars, none, r.index + 1⟩
    | .begun p => .ok ⟨r.chars, some p, r.index + 1⟩
    | .wrong => .error ⟨r.index - p.size, some p.size⟩

/-- Strict reading of the bytes that are left. -/
def Reader.run (r : Reader) : List UInt8 → Except Fault (List Char)
  | [] =>
    match r.begun with
    | none => .ok r.chars.reverse
    | some p => .error ⟨r.index - p.size, none⟩
  | b :: bs =>
    match r.step b with
    | .ok r => r.run bs
    | .error f => .error f

/-- The characters whose UTF-8 form is `bs`, or the first fault. -/
def decode (bs : List UInt8) : Except Fault (List Char) := Reader.run ⟨[], none, 0⟩ bs

/-- `decode` into a string. -/
def decodeString (bs : List UInt8) : Except Fault String := (decode bs).map String.ofList

/-- The character that stands for bytes that are no character. -/
def replacement : Char := Char.ofNat 0xFFFD

/-- Lossy reading of one more byte: a fault is replaced, and the byte that showed it begins
a character of its own. -/
def lossyStep (r : List Char × Option Begun) (b : UInt8) : List Char × Option Begun :=
  let start (chars : List Char) : List Char × Option Begun :=
    match lead b with
    | .ascii c => (c :: chars, none)
    | .begun p => (chars, some p)
    | .wrong => (replacement :: chars, none)
  match r.2 with
  | none => start r.1
  | some p =>
    match follow p b with
    | .ended c => (c :: r.1, none)
    | .begun p => (r.1, some p)
    | .wrong => start (replacement :: r.1)

/-- The text of `bs`, with U+FFFD for each part that is no UTF-8. -/
def decodeLossy (bs : List UInt8) : List Char :=
  let (chars, begun) := bs.foldl lossyStep ([], none)
  (if begun.isSome then replacement :: chars else chars).reverse

/-- The UTF-8 bytes of a character. -/
def encodeChar (c : Char) : List UInt8 :=
  let n := c.toNat
  if n < 0x80 then [n.toUInt8]
  else if n < 0x800 then [(0xC0 + n / 64).toUInt8, (0x80 + n % 64).toUInt8]
  else if n < 0x10000 then
    [(0xE0 + n / 4096).toUInt8, (0x80 + n / 64 % 64).toUInt8, (0x80 + n % 64).toUInt8]
  else
    [(0xF0 + n / 262144).toUInt8, (0x80 + n / 4096 % 64).toUInt8,
      (0x80 + n / 64 % 64).toUInt8, (0x80 + n % 64).toUInt8]

/-- The UTF-8 bytes of a text. -/
def encode (cs : List Char) : List UInt8 := cs.flatMap encodeChar

/-- `encode` of a string. -/
def encodeString (s : String) : List UInt8 := encode s.toList

/-- The number of bytes of a text. -/
def size (cs : List Char) : Nat := cs.foldl (fun n c => n + (encodeChar c).length) 0

end SchemaMigration.Text.Utf8
