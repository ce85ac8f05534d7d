import SchemaMigration.Connection
import SchemaMigration.Tarantool.Link
/-! # Tarantool over a link

A client opens its link when it first needs it. Statements are pieces of Lua; those of a
transaction carry the number of its stream. A request that was sent is always followed by the
reading of its response, so that the next request finds its own. -/
namespace SchemaMigration.Tarantool

/-- The link of a client: what is known at this end of it. -/
structure Session where
  /-- The number of the link at the other end. -/
  number : Nat
  sync : UInt64
  incoming : List UInt8
  deriving Repr

/-- The servers that a client can reach. -/
structure Network (σ : Type) where
  /-- Opens a link to a host and a port and answers with its number and with what the server
  says first. -/
  connect : String → Nat → Action σ (Nat × List UInt8)
  /-- The server behind a link. -/
  peer : Nat → Peer σ

/-- Where a client connects, and as whom. -/
structure Target where
  host : String
  port : Nat
  username : String
  password : String
  deriving DecidableEq, Repr

/-- The port of a host that is named without one. -/
def standardPort : Nat := 3301

/-- The target of a data source name: its first host. -/
def Target.ofDsn (d : Dsn) : Except Failure Target := do
  let (host, port) ← splitHostPort d.primary standardPort
  return ⟨host, port, d.username, d.password⟩

/-- What a client remembers. -/
structure Client where
  session : Option Session
  /-- The stream of the next transaction. -/
  nextStream : UInt64
  /-- The streams of the transactions that are closed. -/
  closed : List UInt64
  deriving Repr

namespace Client

variable {σ : Type}

/-- A client at its start. -/
def start : Client := ⟨none, 1, []⟩

variable (net : Network σ) (target : Target) (place : Part σ Client)

/-- Runs a request on a link and answers with the link after it. -/
def onLink {α : Type} (request : Peer σ → Link σ → Except Failure α × Link σ) (s : Session) :
    Action σ (Except Failure α × Session) := .ofStep fun state =>
  let (r, link) := request (net.peer s.number) ⟨s.sync, s.incoming, state⟩
  (.ok (r, { s with sync := link.sync, incoming := link.incoming }), link.server)

/-- Opens a link and proves the user's identity. -/
def connect : Action σ Session := do
  let (number, greeting) ← net.connect target.host target.port
  let handshake (peer : Peer σ) (l : Link σ) := l.handshake peer target.username target.password
  let (r, session) ← onLink net handshake ⟨number, 0, greeting⟩
  .ofExcept r
  return session

/-- The link, which is opened if need be. A raised token gives up the opening. -/
def openSession (token : Token σ) : Action σ Session := do
  let opened ← token.guard do
    match (← place.read).session with
    | some s => return s
    | none => connect net target
  place.change fun c => { c with session := some opened }
  return opened

/-- Makes a request. Once it is begun, it is carried through. -/
def request {α : Type} (token : Token σ)
    (request : Peer σ → Link σ → Except Failure α × Link σ) : Action σ α := do
  let s ← openSession net target place token
  token.check
  let (r, s) ← onLink net request s
  place.change fun c => { c with session := some s }
  .ofExcept r

/-- Evaluates a piece of Lua in a stream. -/
def eval (token : Token σ) (text : String) (args : List Value) (stream : UInt64) :
    Action σ Rows := do
  let items ← request net target place token fun peer l => l.eval peer text args stream
  return rowsOfResults items

/-- Sends a request that opens or ends a transaction. -/
def control (token : Token σ) (code stream : UInt64) : Action σ Unit :=
  request net target place token fun peer l => l.control peer code stream

/-- Fails when the transaction of a stream is closed. -/
def checkOpen (stream : UInt64) : Action σ Unit := do
  if (← place.read).closed.contains stream then throw .transactionAlreadyClosed

/-- Ends the transaction of a stream. No token stops it. -/
def finish (code stream : UInt64) : Action σ Unit := do
  checkOpen place stream
  place.change fun c => { c with closed := stream :: c.closed }
  control net target place .never code stream

/-- Opens a transaction in a stream of its own. -/
def begin (token : Token σ) : Action σ Nat := do
  let stream := (← place.read).nextStream
  place.change fun c => { c with nextStream := stream + 1 }
  control net target place token beginCode stream
  return stream.toNat

/-- The transaction of a stream. -/
def transaction (stream : UInt64) : Transaction σ where
  query token text args := do
    checkOpen place stream
    eval net target place token text args stream
  exec token text args := do
    checkOpen place stream
    let _ ← eval net target place token text args stream
    return .unsupported
  commit := finish net target place commitCode stream
  rollback := finish net target place rollbackCode stream

/-- The backend of a client that is part of a state. -/
def backend : Backend σ where
  driver := .tarantool
  ping token := request net target place token fun peer l => l.ping peer
  query token text args := eval net target place token text args 0
  exec token text args := do
    let _ ← eval net target place token text args 0
    return .unsupported
  begin token := begin net target place token
  transaction _ id := transaction net target place (UInt64.ofNat id)
  close := pure ()

end Client

end SchemaMigration.Tarantool
