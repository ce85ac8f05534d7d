import SchemaMigration.ClickHouse.Binding
import SchemaMigration.ClickHouse.ExceptionText
import SchemaMigration.ClickHouse.Settings
import SchemaMigration.ClickHouse.Table
import SchemaMigration.Connection
import SchemaMigration.Text.Percent
/-! # ClickHouse over HTTP

Statements are posted to one of the endpoints; a ping tries them in order and settles on the
first that answers. There are no transactions on the server: a transaction keeps its inserts
until it is committed, and sends them then. -/
namespace SchemaMigration.ClickHouse

/-- A request to an endpoint: without a body when it is to be got, and with the user, the
key and a body when it is posted. -/
structure Request where
  endpoint : String
  path : String
  post : Option (String × String × String)
  deriving DecidableEq, Repr

/-- The answer of an endpoint. -/
structure Response where
  status : Nat
  /-- The header that an exception names its code in. -/
  code : Option String
  body : String
  deriving DecidableEq, Repr

/-- Whether an answer tells of an error of the client or of the server: its status is of class 4 or
5. A status of any other class tells of none, also one from 600 on. -/
def Response.isError (r : Response) : Bool := 400 ≤ r.status && r.status < 600

/-- The way to the endpoints. -/
structure Transport (σ : Type) where
  send : Request → Action σ Response

/-- What a client remembers. -/
structure Client where
  /-- The number of the endpoint that statements go to. -/
  active : Nat
  /-- The inserts that each transaction keeps, or nothing once it is closed. -/
  transactions : List (Option (List String))
  deriving Repr

namespace Client

variable {σ : Type}

/-- A client at its start. -/
def start : Client := ⟨0, []⟩

/-- The path that statements are posted to. -/
def statementPath (s : Settings) : String :=
  "/?database=" ++ String.ofList (Text.Percent.encodeField s.database.toList)

/-- The code that the header of an answer names, if it is a number of 32 bits. -/
def headerCode? (r : Response) : Option Int := do
  let n ← Number.readSigned? (Text.trim (← r.code).toList)
  if IntegerType.i32.holds n then some n else none

/-- The body of an answer, unless it is an exception. -/
def judge (r : Response) : Except Failure String :=
  let code := headerCode? r
  if r.status < 200 || 300 ≤ r.status || code.isSome then
    .error (.exception (readException r.body code))
  else .ok r.body

variable (s : Settings) (net : Transport σ) (place : Part σ Client)

/-- Posts a statement to the active endpoint. -/
def post (sql : String) : Action σ String := do
  let endpoint := s.endpoint (← place.read).active
  let r ← net.send ⟨endpoint, statementPath s, some (s.username, s.password, sql)⟩
  .ofExcept (judge r)

/-- Runs a statement that returns no rows. -/
def exec (text : String) (args : List Value) : Action σ ExecResult := do
  let sql ← .ofExcept (bind text args)
  let _ ← post s net place sql
  return .unsupported

/-- Runs a statement that returns rows. -/
def query (text : String) (args : List Value) : Action σ Rows := do
  let sql ← .ofExcept (bind text args)
  let body ← post s net place (withFormat sql)
  .ofExcept (readTable body)

/-- Finds out whether an endpoint answers. -/
def probe (token : Token σ) (endpoint : String) : Action σ Unit :=
  token.guard do
    let r ← net.send ⟨endpoint, "/ping", none⟩
    if r.isError then throw .http

/-- The number of the first endpoint that answers; a raised token ends the search. -/
def search (token : Token σ) : Nat → String → List String → Action σ Nat
  | number, endpoint, [] => do
    probe net token endpoint
    return number
  | number, endpoint, next :: others => do
    match ← (probe net token endpoint).outcome with
    | .ok () => return number
    | .error .cancelled => throw .cancelled
    | .error _ => search token (number + 1) next others

/-- Settles on the first endpoint that answers. -/
def ping (token : Token σ) : Action σ Unit := do
  let number ← search net token 0 s.first s.others
  place.change fun c => { c with active := number }

/-- The inserts that a transaction keeps, unless it is closed. -/
def kept (id : Nat) : Action σ (List String) := do
  match (← place.read).transactions[id]? with
  | some (some kept) => return kept
  | _ => throw .transactionAlreadyClosed

/-- Replaces what a transaction keeps. -/
def keep (id : Nat) (kept : Option (List String)) : Action σ Unit :=
  place.change fun c => { c with transactions := c.transactions.set id kept }

/-- Opens a transaction; nothing is sent. -/
def begin : Action σ Nat := do
  let c ← place.read
  place.write { c with transactions := c.transactions ++ [some []] }
  return c.transactions.length

/-- A transaction that was opened under a token. The token also stops the commit. -/
def transaction (opened : Token σ) (id : Nat) : Transaction σ where
  query token text args := do
    let _ ← kept place id
    token.guard (query s net place text args)
  exec token text args := do
    let inserts ← kept place id
    if isInsert text then
      let sql ← .ofExcept (bind text args)
      keep place id (some (inserts ++ [sql]))
      return .unsupported
    else token.guard (exec s net place text args)
  commit := do
    opened.check
    let inserts ← kept place id
    keep place id none
    inserts.forM fun sql => opened.guard do
      let _ ← post s net place sql
  rollback := do
    let _ ← kept place id
    keep place id none

/-- The backend of a client that is part of a state. -/
def backend : Backend σ where
  driver := .clickHouse
  ping := ping s net place
  query token text args := token.guard (query s net place text args)
  exec token text args := token.guard (exec s net place text args)
  begin token := do
    token.check
    begin place
  transaction := transaction s net place
  close := pure ()

end Client

end SchemaMigration.ClickHouse
