import SchemaMigration.Scripted.Address
import SchemaMigration.Scripted.Greeting
import SchemaMigration.Scripted.Rule
import SchemaMigration.Tarantool.Client
/-! # Scripted Tarantool servers

Servers that greet, and answer each packet by rules. The text that a rule goes by is the
expression to evaluate, or else the name of the request. -/
namespace SchemaMigration.Scripted

open Tarantool

/-- How a request is answered. -/
structure PacketAnswer where
  /-- The number of the error; none when all is well. -/
  error : Option Nat
  message : Option String
  /-- The results, as they are written. -/
  data : Option (List UInt8)
  /-- How far the number in the answer is off. -/
  syncDelta : Int
  /-- The whole answer, as it is written. -/
  raw : Option (List UInt8)
  /-- Nothing is sent from now on. -/
  close : Bool
  deriving Repr

/-- The answer when no rule gives one. -/
def PacketAnswer.standard : PacketAnswer := ⟨none, none, none, 0, none, false⟩

/-- A server, which may be down. -/
structure IprotoServer where
  down : Bool
  rules : List (Rule PacketAnswer)
  /-- What the first links are greeted with. -/
  greetings : List (List UInt8)
  /-- The number of links so far. -/
  links : Nat
  deriving Repr

/-- The link of a client. -/
structure IprotoLink where
  server : Nat
  silent : Bool
  deriving Repr

/-- The servers of a script. -/
structure Iproto where
  /-- Whether there is a way to them at all. -/
  reachable : Bool
  servers : List IprotoServer
  links : List IprotoLink
  /-- The links and the packets that arrived. -/
  log : List (Option (List UInt8))
  deriving Repr

namespace Iproto

/-- A packet around a payload. -/
def frame (payload : List UInt8) : List UInt8 :=
  0xCE :: Msgpack.bigEndian 4 payload.length ++ payload

/-- The text that rules go by. -/
def textOf (code : UInt64) (body : Option Entries) : String :=
  if code = evalCode then ((body.bind (lookup exprKey)).bind Msgpack.text?).getD ""
  else if code = authCode then "AUTH"
  else if code = beginCode then "BEGIN"
  else if code = commitCode then "COMMIT"
  else if code = rollbackCode then "ROLLBACK"
  else "PING"

/-- The schema version that answers name. -/
def schemaKey : UInt64 := 0x05
def schemaVersion : UInt64 := 80

/-- The header of an answer. -/
def header (a : PacketAnswer) (sync : UInt64) : List UInt8 :=
  let status : UInt64 := match a.error with
    | some n => errorFlag + UInt64.ofNat n
    | none => 0
  (Msgpack.map [(.natural requestKey, .natural status),
    (.natural syncKey, .natural (sync + UInt64.ofInt a.syncDelta)),
    (.natural schemaKey, .natural schemaVersion)]).write

/-- The body of an answer. -/
def body (a : PacketAnswer) : List UInt8 :=
  match a.message, a.data with
  | some message, _ => (Msgpack.map [(.natural errorKey, .ofText message)]).write
  | none, some data => 0x81 :: (Msgpack.natural dataKey).write ++ data
  | none, none => (Msgpack.map []).write

/-- What is sent in answer to a request with a number. -/
def written (a : PacketAnswer) (sync : UInt64) : List UInt8 :=
  if a.close then []
  else match a.raw with
    | some bytes => bytes
    | none => frame (header a sync ++ body a)

/-- Answers a packet on a link. -/
def receive (link : Nat) (packet : List UInt8) (t : Iproto) : List UInt8 × Iproto :=
  let t := { t with log := t.log ++ [some packet] }
  match t.links[link]? with
  | none => ([], t)
  | some l =>
    match (takePacket packet).1.bind decodeResponse, t.servers[l.server]? with
    | .ok (head, content), some server =>
      if l.silent then ([], t)
      else
        let (found, rules) := Rule.consult (textOf (number requestKey head) content) server.rules
        let a := found.getD .standard
        (written a (number syncKey head),
          { t with
            servers := t.servers.set l.server { server with rules }
            links := t.links.set link { l with silent := a.close } })
    | _, _ => ([], t)

/-- Opens a link. -/
def connect (host : String) (port : Nat) : Action Iproto (Nat × List UInt8) := .ofStep fun t =>
  if !t.reachable then (.error (.io .unreachable), t)
  else match find? .network t.servers.length s!"{host}:{port}" with
    | none => (.error (.io .refused), t)
    | some n =>
      match t.servers[n]? with
      | none => (.error (.io .refused), t)
      | some server =>
        if server.down then (.error (.io .refused), t)
        else
          let hello := (server.greetings[server.links]?).getD greeting
          (.ok (t.links.length, hello),
            { t with
              servers := t.servers.set n { server with links := server.links + 1 }
              links := t.links ++ [⟨n, hello.length < greetingSize⟩]
              log := t.log ++ [none] })

/-- The servers as part of a state. -/
def network {σ : Type} (place : Part σ Iproto) : Network σ where
  connect host port := place.lift (connect host port)
  peer link := { receive := fun packet s =>
    let (bytes, t) := receive link packet (place.get s)
    (bytes, place.set t s) }

end Iproto

end SchemaMigration.Scripted
