import SchemaMigration.CommandLine.Run
import SchemaMigration.History.Memory
import SchemaMigration.Recorder
import SchemaMigration.Scripted.Fault
import SchemaMigration.Scripted.Http
import SchemaMigration.Scripted.Iproto
import SchemaMigration.Scripted.SqlServer
import SchemaMigration.MySql.Product
import SchemaMigration.Postgres.Product
import SchemaMigration.Retry
/-! # The state of a script

Everything that the steps of a script can change: the servers and what clients remember of
them, the recorder with its faults, the history in memory, the tokens, the files, the
answers of the operator, and what has been said so far. -/
namespace SchemaMigration.Scripted

open CommandLine (Surroundings Terminal)

/-- An answer of the operator. -/
inductive PromptReply where
  | say (yes : Bool)
  /-- The line that the operator writes. -/
  | line (text : String)
  | failure
  deriving Repr

/-- What the clients of one connection remember. -/
structure Clients where
  clickHouse : ClickHouse.Client
  tarantool : Tarantool.Client
  sql : Sql.Client

/-- Clients at their start. -/
def Clients.start : Clients := ⟨.start, .start, .start⟩

/-- A transaction that steps refer to: the token that it was opened under, and its number. -/
structure Handle where
  token : Nat
  number : Nat
  deriving Repr

/-- The answer to a step. -/
inductive Reply where
  | nothing
  | unit
  | flag (b : Bool)
  | text (s : String)
  | texts (items : List String)
  | exec (r : ExecResult)
  | rows (r : Rows)
  | datum (d : Datum)
  | applied (items : List Applied)
  | summary (s : Summary)
  | files (items : List MigrationFile)
  | paths (p : Option (String × String))
  | sizes (items : List (String × Nat))
  | context (display : String) (cancelled inTransaction : Bool)
  | history (driver : Driver) (table : String) (alwaysSafe : Bool)

/-- What a step answers with. -/
inductive Answer where
  | plain (r : Reply)
  | result (r : Except Failure Reply)
  /-- The outcome of a transaction, and the answers of the steps in it. -/
  | transaction (r : Except Failure Unit) (steps : List Answer)

/-- The failure that an answer tells of. -/
def Answer.failure? : Answer → Option Failure
  | .result (.error f) => some f
  | .transaction (.error f) _ => some f
  | _ => none

/-- The state of a script. -/
structure State where
  http : Http
  iproto : Iproto
  sql : SqlServers
  /-- The clients of the connection. -/
  first : Clients
  /-- The clients of the transactions that steps open themselves. -/
  second : Clients
  recorder : Recorder
  faults : List Fault
  memory : Memory
  reached : Bool
  /-- The tokens that have been raised. -/
  raised : List Nat
  /-- The number of tokens so far. -/
  tokens : Nat
  /-- The token of the steps that follow. -/
  current : Nat
  handles : List Handle
  files : Files
  /-- The variables of the process. -/
  environment : List (String × String)
  prompts : List PromptReply
  /-- What a run of the command line writes to. -/
  terminal : Terminal
  /-- The questions asked in this step. -/
  asked : List String
  /-- The statements told of in this step. -/
  journal : List (Level × String)
  /-- The answers of the steps inside the open transaction. -/
  inner : List Answer
  /-- How much of what the servers received has been shown. -/
  seen : Nat
  /-- Whether a step made no sense. -/
  misused : Bool
  /-- The time slept, in milliseconds. -/
  slept : Nat

namespace State

/-- The parts of the state. -/
def httpPart : Part State Http := { get := (·.http), set := fun t s => { s with http := t } }
def iprotoPart : Part State Iproto :=
  { get := (·.iproto), set := fun t s => { s with iproto := t } }
def sqlPart : Part State SqlServers := { get := (·.sql), set := fun t s => { s with sql := t } }
def firstPart : Part State Clients := { get := (·.first), set := fun t s => { s with first := t } }
def secondPart : Part State Clients :=
  { get := (·.second), set := fun t s => { s with second := t } }
def recorderPart : Part State Recorder :=
  { get := (·.recorder), set := fun t s => { s with recorder := t } }
def faultsPart : Part State (List Fault) :=
  { get := (·.faults), set := fun t s => { s with faults := t } }
def memoryPart : Part State Memory :=
  { get := (·.memory), set := fun t s => { s with memory := t } }
def reachedPart : Part State Bool :=
  { get := (·.reached), set := fun t s => { s with reached := t } }
def raisedPart : Part State (List Nat) :=
  { get := (·.raised), set := fun t s => { s with raised := t } }
def filesPart : Part State Files := { get := (·.files), set := fun t s => { s with files := t } }
def terminalPart : Part State Terminal :=
  { get := (·.terminal), set := fun t s => { s with terminal := t } }

/-- The parts of the clients. -/
def clickHousePart : Part Clients ClickHouse.Client :=
  { get := (·.clickHouse), set := fun t s => { s with clickHouse := t } }
def tarantoolPart : Part Clients Tarantool.Client :=
  { get := (·.tarantool), set := fun t s => { s with tarantool := t } }
def sqlClientPart : Part Clients Sql.Client :=
  { get := (·.sql), set := fun t s => { s with sql := t } }

/-- A state in which nothing has happened. -/
def start (http : Http) (iproto : Iproto) (sql : SqlServers) (files : Files) : State where
  http := http
  iproto := iproto
  sql := sql
  first := .start
  second := .start
  recorder := .empty
  faults := []
  memory := .empty
  reached := false
  raised := []
  tokens := 1
  current := 0
  handles := []
  files := files
  environment := []
  prompts := []
  terminal := .start []
  asked := []
  journal := []
  inner := []
  seen := 0
  misused := false
  slept := 0

/-- Changes the state. -/
def change (f : State → State) : Action State Unit := Part.whole.change f

/-- What the state is now. -/
def now : Action State State := Part.whole.read

/-- The token with a number. -/
def token (n : Nat) : Token State := .numbered raisedPart n

/-- Notes a statement that is about to run. -/
def tell (level : Level) (statement : String) : Action State Unit :=
  change fun s => { s with journal := s.journal ++ [(level, statement)] }

/-- Lets a time pass. -/
def sleep (milliseconds : Nat) : Action State Unit :=
  change fun s => { s with slept := s.slept + milliseconds }

/-- Asks the operator. The last answer is given again to every further question. -/
def ask (message : String) : Action State Bool := do
  let s ← now
  change fun s => { s with
    asked := s.asked ++ [message]
    prompts := if s.prompts.length ≤ 1 then s.prompts else s.prompts.tail }
  match s.prompts with
  | [] => return false
  | .say yes :: _ => return yes
  | .line text :: _ => .ofExcept (Prompt.answer (Text.Utf8.encodeString text)).1
  | .failure :: _ => throw (.driver "prompt failed")

/-- Opens the backend of a data source name, for clients that are part of the state. -/
def openBackend (environment : List (String × String)) (dsn : Dsn) (clients : Part State Clients) :
    Except Failure (Backend State) :=
  match dsn.driver with
  | .clickHouse => do
    let settings ← ClickHouse.Settings.ofDsn dsn
    return ClickHouse.Client.backend settings (Http.transport httpPart)
      (clients.inside clickHousePart)
  | .tarantool => do
    let target ← Tarantool.Target.ofDsn dsn
    return Tarantool.Client.backend (Iproto.network iprotoPart) target
      (clients.inside tarantoolPart)
  | .postgres => do
    let login ← Sql.Login.ofPostgres environment dsn
    return Sql.Client.backend Postgres.product (SqlServers.wire sqlPart login)
      (clients.inside sqlClientPart)
  | .mySql => do
    let login ← Sql.Login.ofMySql dsn
    return Sql.Client.backend MySql.product (SqlServers.wire sqlPart login)
      (clients.inside sqlClientPart)

/-- Opens a connection. -/
def openConnection (raw : String) : Action State (Connection State) := do
  let environment := (← now).environment
  let dsn ← .ofExcept (Dsn.parse raw)
  let backend ← .ofExcept (openBackend environment dsn firstPart)
  return ⟨dsn, backend, reachedPart⟩

/-- What goes on between two attempts to connect. -/
def betweenAttempts : Retry.Surroundings State := ⟨Terminal.warn terminalPart, sleep⟩

/-- Opens a connection and makes sure that it works. -/
def openReached (raw : String) : Action State (Connection State) := do
  let c ← openConnection raw
  change fun s => { s with first := .start, reached := false }
  c.ping (.ofToken .never)
  return c

/-- Opens a connection and makes sure that it works, with further attempts after pauses. -/
def connect (raw : String) (attempts : Int32) : Action State (Connection State) :=
  Retry.run betweenAttempts attempts Retry.standardDelay (openReached raw)

/-- What a run of the command line meets. -/
def surroundings (now : Instant) : Surroundings State :=
  ⟨connect, filesPart, terminalPart, now⟩

end State

end SchemaMigration.Scripted
