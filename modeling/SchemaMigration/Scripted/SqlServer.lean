import SchemaMigration.Scripted.Address
import SchemaMigration.Scripted.Rule
import SchemaMigration.Sql.Client
import SchemaMigration.Sql.Login
/-! # Scripted PostgreSQL and MySQL servers

Servers that answer statements by rules and keep no data. The first connection of a script is
noted with its user and its database. -/
namespace SchemaMigration.Scripted

open Sql

/-- What arrived at a server. -/
inductive SqlEvent where
  | connect (user : String) (database : Option String)
  | command (c : Command)
  deriving Repr

/-- A server, which may be down. -/
structure SqlServer where
  down : Bool
  rules : List (Rule (Except ServerReport Reply))

/-- The servers of a script. -/
structure SqlServers where
  access : Access
  /-- Whether there is a way to them at all. -/
  reachable : Bool
  servers : List SqlServer
  connected : Bool
  log : List SqlEvent

namespace SqlServers

/-- The answer when no rule gives one. -/
def standard : Reply := ⟨[], [], 0, 0⟩

/-- The text of a statement. -/
def textOf : Command → String
  | .simple text => text
  | .prepared text _ => text

/-- The number of the server that a login leads to. -/
def serverOf (t : SqlServers) (l : Login) : Option Nat :=
  match t.access, l.socket with
  | .network, none => find? .network t.servers.length l.host
  | .network, some _ => none
  | access, some socket => findSocket? access t.servers.length socket
  | _, none => none

/-- Why a server cannot be reached, if it cannot. -/
def fault? (t : SqlServers) (l : Login) : Option IoFault :=
  if !t.reachable then some .unreachable
  else match (t.serverOf l).bind (t.servers[·]?) with
    | none => some (if l.socket.isSome then .notFound else .unreachable)
    | some server => if server.down then some .refused else none

/-- Makes sure that there is a connection. -/
def reach (l : Login) : Action SqlServers Unit := .ofStep fun t =>
  match t.fault? l with
  | some fault => (.error (.database (.communication fault)), t)
  | none =>
    match l.obstacle with
    | some fault => (.error (.database fault), t)
    | none =>
      if t.connected then (.ok (), t)
      else
        let log := t.log ++ [SqlEvent.connect l.user l.database]
        (.ok (), { t with connected := true, log })

/-- Answers a statement. -/
def answer (l : Login) (c : Command) : Action SqlServers Reply := .ofStep fun t =>
  let t := { t with log := t.log ++ [SqlEvent.command c] }
  match t.serverOf l with
  | none => (.ok standard, t)
  | some n =>
    match t.servers[n]? with
    | none => (.ok standard, t)
    | some server =>
      let (found, rules) := Rule.consult (textOf c) server.rules
      let t := { t with servers := t.servers.set n { server with rules } }
      match found.getD (.ok standard) with
      | .ok reply => (.ok reply, t)
      | .error report => (.error (.database (.server report)), t)

/-- The way to servers that are part of a state. -/
def wire {σ : Type} (place : Part σ SqlServers) (l : Login) : Wire σ where
  reach := place.lift (reach l)
  send c := place.lift (answer l c)

/-- The number that stands at the start of the last word of a command tag. A tag of one word
has none; without a number, or with one beyond 64 bits, it is zero. -/
def affectedOf (tag : String) : UInt64 :=
  match Text.cutLast ' ' tag.toList with
  | none => 0
  | some (_, word) =>
    let unsigned := if word.head? = some '+' then word.drop 1 else word
    let n := Number.digitsValue (unsigned.takeWhile Number.isDigit)
    if n < Nat.pow 2 64 then UInt64.ofNat n else 0

end SqlServers

end SchemaMigration.Scripted
