import SchemaMigration.Tarantool.Packet
import SchemaMigration.Tarantool.Values
/-! # Links

A link is one end of a byte stream with a server at the other. Requests are strictly one
after another: each has a number of its own, and the packet that is read next must carry the
number back. The server is any machine that turns what it gets into what it sends; the end
of what it sends is the end of the stream. -/
namespace SchemaMigration.Tarantool

/-- A server: what it sends after it got a packet. -/
structure Peer (σ : Type) where
  receive : List UInt8 → σ → List UInt8 × σ

/-- A link in the middle of its life. -/
structure Link (σ : Type) where
  /-- The number of the last request. -/
  sync : UInt64
  /-- The bytes sent by the server and not yet read. -/
  incoming : List UInt8
  /-- The state of the server. -/
  server : σ

namespace Link

variable {σ : Type}

/-- A link on which nothing was sent yet. -/
def start (incoming : List UInt8) (server : σ) : Link σ := ⟨0, incoming, server⟩

/-- Sends a packet. -/
def send (peer : Peer σ) (packet : List UInt8) (l : Link σ) : Link σ :=
  let (reply, server) := peer.receive packet l.server
  { l with incoming := l.incoming ++ reply, server }

/-- What a response means to the request with a number. -/
def judge (sync : UInt64) (header : Entries) (body : Option Entries) :
    Except Failure (Option Entries) :=
  let found := number syncKey header
  let status := number requestKey header
  if found ≠ sync then .error (.protocol (.sync found sync))
  else if status &&& errorFlag ≠ 0 then
    let code := (status &&& ~~~errorFlag).toNat
    let message := ((body.bind (lookup errorKey)).bind Msgpack.text?).getD ""
    .error (.tarantool (if code < Nat.pow 2 32 then code else 0) message)
  else .ok body

/-- Sends a request and reads its response. -/
def request (peer : Peer σ) (code stream : UInt64) (body : Entries) (l : Link σ) :
    Except Failure (Option Entries) × Link σ :=
  let sync := l.sync + 1
  let l := { l with sync }
  match encodeRequest code sync stream body with
  | .error f => (.error f, l)
  | .ok packet =>
    let l := l.send peer packet
    let (payload, rest) := takePacket l.incoming
    let l := { l with incoming := rest }
    (do
      let (header, body) ← decodeResponse (← payload)
      judge sync header body, l)

/-- Asks whether the server is there. -/
def ping (peer : Peer σ) (l : Link σ) : Except Failure Unit × Link σ :=
  let (r, l) := l.request peer pingCode 0 []
  (r.map fun _ => (), l)

/-- Sends a request that opens or ends a transaction. -/
def control (peer : Peer σ) (code stream : UInt64) (l : Link σ) : Except Failure Unit × Link σ :=
  let (r, l) := l.request peer code stream []
  (r.map fun _ => (), l)

/-- The results in the body of a response; a body without them has none. -/
def results (body : Option Entries) : Except Failure (List Msgpack) :=
  match (body.bind (lookup dataKey)).getD (.array []) with
  | .array items => .ok items
  | other => .error (.protocol (.data other.display))

/-- Evaluates an expression. -/
def eval (peer : Peer σ) (expr : String) (args : List Value) (stream : UInt64) (l : Link σ) :
    Except Failure (List Msgpack) × Link σ :=
  let (r, l) := l.request peer evalCode stream
    [(.natural exprKey, .ofText expr), (.natural tupleKey, .array (toMsgpackAll args))]
  (r.bind results, l)

/-- Proves the identity of a user. -/
def authenticate (peer : Peer σ) (user password : String) (salt : List UInt8) (l : Link σ) :
    Except Failure Unit × Link σ :=
  let proof := scramble salt (Text.Utf8.encodeString password)
  let (r, l) := l.request peer authCode 0
    [(.natural userKey, .ofText user),
      (.natural tupleKey, .array [.ofText "chap-sha1", .binary proof])]
  (r.map fun _ => (), l)

/-- Reads the greeting and proves the user's identity, unless the user is a guest. -/
def handshake (peer : Peer σ) (user password : String) (l : Link σ) :
    Except Failure Unit × Link σ :=
  let (greeting, rest) := takeExact greetingSize l.incoming
  let l := { l with incoming := rest }
  match greeting.bind readSalt with
  | .error f => (.error f, l)
  | .ok salt =>
    if user.isEmpty ∨ user = "guest" then (.ok (), l)
    else l.authenticate peer user password salt

end Link

/-- A server that has said everything beforehand; it keeps what it gets. -/
def Peer.silent : Peer (List UInt8) where
  receive packet got := ([], got ++ packet)

end SchemaMigration.Tarantool
