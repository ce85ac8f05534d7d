/-! # SHA-1

The digest that the password scheme of Tarantool uses. A message is padded to blocks of 64
bytes; each block is stretched to eighty words, which stir the state one after another. -/
namespace SchemaMigration.Digest

/-- The five words of the state. -/
structure Sha1 where
  a : UInt32
  b : UInt32
  c : UInt32
  d : UInt32
  e : UInt32
  deriving DecidableEq, Repr

namespace Sha1

/-- The state before the first block. -/
def start : Sha1 := ⟨0x67452301, 0xEFCDAB89, 0x98BADCFE, 0x10325476, 0xC3D2E1F0⟩

/-- Rotates a word to the left. -/
def rotate (x : UInt32) (n : UInt32) : UInt32 := (x <<< n) ||| (x >>> (32 - n))

/-- The bytes of a word, most significant first. -/
def wordBytes (x : UInt32) : List UInt8 :=
  [(x >>> 24).toUInt8, (x >>> 16).toUInt8, (x >>> 8).toUInt8, x.toUInt8]

/-- Bytes as words, four bytes a word. -/
def words : List UInt8 → List UInt32
  | a :: b :: c :: d :: rest =>
    ((a.toUInt32 <<< 24) ||| (b.toUInt32 <<< 16) ||| (c.toUInt32 <<< 8) ||| d.toUInt32) ::
      words rest
  | _ => []

/-- The length of a message in bits, in eight bytes. -/
def lengthBytes (bytes : Nat) : List UInt8 :=
  let bits := 8 * bytes
  (List.range 8).map fun i => (bits / Nat.pow 256 (7 - i)).toUInt8

/-- A message with a one bit, zeros and its length, in whole blocks. -/
def padded (message : List UInt8) : List UInt8 :=
  let zeros := (119 - message.length % 64) % 64
  message ++ 0x80 :: List.replicate zeros 0 ++ lengthBytes message.length

/-- One more word of a block from those before it, which are given last first. -/
def nextWord (done : List UInt32) : UInt32 :=
  let get (i : Nat) : UInt32 := (done[i]?).getD 0
  rotate (get 2 ^^^ get 7 ^^^ get 13 ^^^ get 15) 1

/-- The words of a block, last first, stretched by as many as the number says. -/
def stretch : Nat → List UInt32 → List UInt32
  | 0, done => done
  | n + 1, done => stretch n (nextWord done :: done)

/-- The function and the constant of a round. -/
def mix (round : Nat) (s : Sha1) : UInt32 :=
  if round < 20 then ((s.b &&& s.c) ||| (~~~s.b &&& s.d)) + 0x5A827999
  else if round < 40 then (s.b ^^^ s.c ^^^ s.d) + 0x6ED9EBA1
  else if round < 60 then
    ((s.b &&& s.c) ||| (s.b &&& s.d) ||| (s.c &&& s.d)) + 0x8F1BBCDC
  else (s.b ^^^ s.c ^^^ s.d) + 0xCA62C1D6

/-- One round; the state comes with the number of the round. -/
def round (rs : Nat × Sha1) (w : UInt32) : Nat × Sha1 :=
  let (r, s) := rs
  (r + 1, ⟨rotate s.a 5 + mix r s + s.e + w, s.a, rotate s.b 30, s.c, s.d⟩)

/-- Takes one block into the state. -/
def block (s : Sha1) (ws : List UInt32) : Sha1 :=
  let (_, t) := (stretch 64 ws.reverse).reverse.foldl round (0, s)
  ⟨s.a + t.a, s.b + t.b, s.c + t.c, s.d + t.d, s.e + t.e⟩

/-- Takes as many blocks of sixteen words as the number says. -/
def blocks : Nat → Sha1 → List UInt32 → Sha1
  | 0, s, _ => s
  | n + 1, s, ws => blocks n (block s (ws.take 16)) (ws.drop 16)

/-- The bytes of the state. -/
def bytes (s : Sha1) : List UInt8 := [s.a, s.b, s.c, s.d, s.e].flatMap wordBytes

end Sha1

/-- The digest of a message: twenty bytes. -/
def sha1 (message : List UInt8) : List UInt8 :=
  let ws := Sha1.words (Sha1.padded message)
  (Sha1.blocks (ws.length / 16) .start ws).bytes

end SchemaMigration.Digest
