import SchemaMigration.Digest.Sha1
import SchemaMigration.Failure
import SchemaMigration.Msgpack.Bytes
import SchemaMigration.Text.Base64
/-! # Packets

A packet is a length and as many bytes: a header, which is a map, and a body, which is a map
or missing. A request names its kind, its number and the stream it belongs to; a response
names the number of its request, and whether it is an error. -/
namespace SchemaMigration.Tarantool

/-- The entries of a header or of a body. -/
abbrev Entries := List (Msgpack × Msgpack)

/-- The kinds of requests, and the flag of error responses. -/
def authCode : UInt64 := 0x07
def evalCode : UInt64 := 0x08
def beginCode : UInt64 := 0x0E
def commitCode : UInt64 := 0x0F
def rollbackCode : UInt64 := 0x10
def pingCode : UInt64 := 0x40
def errorFlag : UInt64 := 0x8000

/-- The keys of headers. -/
def requestKey : UInt64 := 0x00
def syncKey : UInt64 := 0x01
def streamKey : UInt64 := 0x0A

/-- The keys of bodies. -/
def tupleKey : UInt64 := 0x21
def userKey : UInt64 := 0x23
def exprKey : UInt64 := 0x27
def dataKey : UInt64 := 0x30
def errorKey : UInt64 := 0x31

/-- The header of a request. Stream zero stands for no stream. -/
def requestHeader (request sync stream : UInt64) : Entries :=
  [(.natural requestKey, .natural request), (.natural syncKey, .natural sync)] ++
    (if stream = 0 then [] else [(.natural streamKey, .natural stream)])

/-- A request packet. -/
def encodeRequest (request sync stream : UInt64) (body : Entries) :
    Except Failure (List UInt8) :=
  let payload := (Msgpack.map (requestHeader request sync stream)).write ++
    (Msgpack.map body).write
  if payload.length < Nat.pow 2 32 then .ok (0xCE :: Msgpack.bigEndian 4 payload.length ++ payload)
  else .error (.protocol .requestSize)

/-- As many bytes from the front. A stream that ends before is used up. -/
def takeExact (n : Nat) (bs : List UInt8) : Except Failure (List UInt8) × List UInt8 :=
  match Msgpack.takeBytes n bs with
  | some (front, rest) => (.ok front, rest)
  | none => (.error (.io .endOfStream), [])

/-- A number of a width and then as many bytes. -/
def takeCounted (width : Nat) (bs : List UInt8) : Except Failure (List UInt8) × List UInt8 :=
  match takeExact width bs with
  | (.ok length, rest) => takeExact (Msgpack.ofBigEndian length) rest
  | (.error f, rest) => (.error f, rest)

/-- The payload of the packet at the front of a stream. Its length is written in one of four
forms. -/
def takePacket : List UInt8 → Except Failure (List UInt8) × List UInt8
  | [] => (.error (.io .endOfStream), [])
  | marker :: bs =>
    if marker = 0xCE then takeCounted 4 bs
    else if marker = 0xCD then takeCounted 2 bs
    else if marker = 0xCC then takeCounted 1 bs
    else if marker < 0x80 then takeExact marker.toNat bs
    else (.error (.protocol (.lengthMarker marker)), bs)

/-- The header and the body of a response. -/
def decodeResponse (payload : List UInt8) : Except Failure (Entries × Option Entries) :=
  match Msgpack.read payload with
  | none => .error (.protocol .malformed)
  | some (.map header, rest) =>
    if rest.isEmpty then .ok (header, none)
    else match Msgpack.read rest with
      | none => .error (.protocol .malformed)
      | some (.map body, _) => .ok (header, some body)
      | some (other, _) => .error (.protocol (.body other.display))
  | some (other, _) => .error (.protocol (.header other.display))

/-- The value of the first entry with a key. -/
def lookup (key : UInt64) (entries : Entries) : Option Msgpack :=
  (entries.find? fun e => e.1.natural? == some key).map (·.2)

/-- The number under a key; zero when there is none. -/
def number (key : UInt64) (entries : Entries) : UInt64 :=
  ((lookup key entries).bind Msgpack.natural?).getD 0

/-- The length of a greeting, and where its salt stands. -/
def greetingSize : Nat := 128
def saltStart : Nat := 64
def saltLength : Nat := 44

/-- The length of a scramble. -/
def scrambleSize : Nat := 20

/-- The salt that a greeting holds in its second line. -/
def readSalt (greeting : List UInt8) : Except Failure (List UInt8) :=
  if greeting.length < saltStart + saltLength then .error (.protocol .shortGreeting)
  else match Text.Base64.decode ((greeting.drop saltStart).take saltLength) with
    | none => .error (.protocol .saltText)
    | some salt =>
      if salt.length < scrambleSize then .error (.protocol .shortSalt)
      else .ok (salt.take scrambleSize)

/-- The proof of knowing a password: its digest, masked by a digest of the salt and of the
digest of its digest. -/
def scramble (salt password : List UInt8) : List UInt8 :=
  let step1 := Digest.sha1 password
  let step2 := Digest.sha1 step1
  let step3 := Digest.sha1 (salt.take scrambleSize ++ step2)
  List.zipWith (· ^^^ ·) step1 step3

end SchemaMigration.Tarantool
