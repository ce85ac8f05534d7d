import SchemaMigration.ClickHouse.Client
import SchemaMigration.Scripted.Address
import SchemaMigration.Scripted.Rule
/-! # Scripted HTTP servers

Servers that answer requests by rules and keep no data. The text that a rule goes by is the
body of what is posted, and the path of what is got. -/
namespace SchemaMigration.Scripted

open ClickHouse (Request Response Transport)

/-- A request that arrived at a server. -/
structure Visit where
  server : Nat
  request : Request
  deriving Repr

/-- A server, which may be down. -/
structure HttpServer where
  down : Bool
  rules : List (Rule Response)
  deriving Repr

/-- The servers of a script. -/
structure Http where
  /-- Whether there is a way to them at all. -/
  reachable : Bool
  servers : List HttpServer
  log : List Visit
  deriving Repr

namespace Http

/-- The answer when no rule gives one. -/
def standard : Response := ⟨200, none, ""⟩

/-- The text that rules go by. -/
def textOf (r : Request) : String :=
  match r.post with
  | some (_, _, body) => body
  | none => r.path

/-- The number of the server at an endpoint. -/
def serverAt (h : Http) (endpoint : String) : Option Nat :=
  (List.range h.servers.length).find? fun n => "http://" ++ address .network n == endpoint

/-- Answers a request. -/
def answer (r : Request) : Action Http Response := .ofStep fun h =>
  if !h.reachable then (.error .http, h)
  else match h.serverAt r.endpoint with
    | none => (.error .http, h)
    | some n =>
      match h.servers[n]? with
      | none => (.error .http, h)
      | some server =>
        if server.down then (.error .http, h)
        else
          let (found, rules) := Rule.consult (textOf r) server.rules
          (.ok (found.getD standard),
            { h with
              servers := h.servers.set n { server with rules }
              log := h.log ++ [⟨n, r⟩] })

/-- The way to servers that are part of a state. -/
def transport {σ : Type} (place : Part σ Http) : Transport σ := ⟨fun r => place.lift (answer r)⟩

end Http

end SchemaMigration.Scripted
