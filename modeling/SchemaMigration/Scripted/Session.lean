import SchemaMigration.History.Choice
import SchemaMigration.Scaffold
import SchemaMigration.Scripted.State
/-! # Sessions

A session is a list of steps on one connection. Each step is a call on the connection, on the
history or on the migrator, or it changes what the calls meet. The answer to a session shows,
for each step, what the call answered and what it left behind. -/
namespace SchemaMigration.Scripted

/-- A call on the migrator that takes a limit. -/
inductive Move where
  | up
  | down
  | redo
  | history
  | pending
  deriving DecidableEq, Repr

/-- A step of a session. -/
inductive Step where
  | ping
  | close
  | cancel
  | freshContext
  | context
  | exec (text : String) (args : List Value)
  | query (text : String) (args : List Value)
  /-- Steps inside a transaction of the connection, or of the history; at the end the body may
  fail by itself. -/
  | transaction (ofHistory : Bool) (steps : List Step) (fail : Option String)
  /-- A step whose failure does not end the transaction around it. -/
  | tolerant (step : Step)
  | begin
  | handleExec (handle : Nat) (text : String) (args : List Value)
  | handleQuery (handle : Nat) (text : String) (args : List Value)
  | handleCommit (handle : Nat)
  | handleRollback (handle : Nat)
  /-- A step with the transaction of a handle in its context. -/
  | within (handle : Nat) (step : Step)
  | info
  | migrations (limit : Nat)
  | hasTable
  | createTable
  | dropTable
  | insert (version : String)
  | remove (version : String)
  | contains (version : String)
  | count
  | historyExec (text : String) (args : List Value)
  | scalar (text : String) (args : List Value) (destination : Destination)
  | move (m : Move) (limit : Option String)
  | moveTo (version : String)
  | create (name : String)
  | upgrade (version script : String) (safely : Bool)
  | downgrade (version script : String) (safely : Bool)
  | closeService
  | statements (name : String)
  | write (name : String) (content : Entry)
  | delete (name : String)
  | list
  | respond (fragment : String) (rows : List Value)
  | failOn (fragment message : String)
  | failCommit (message : String)
  | failPing (message : String)
  | clear
  | received

/-- What the steps of a session work with. -/
structure Session where
  connection : Connection State
  /-- The backend of the transactions that steps open themselves. -/
  raw : Backend State
  migrator : Option (Migrator State)
  /-- Whether closing the migrator closes the connection. -/
  owned : Bool
  /-- The directory of the scripts. -/
  directory : String
  now : Instant

namespace Session

/-- The answer to a call. -/
def reply {α : Type} (f : α → Reply) (a : Action State α) : Action State Answer := do
  match ← a.outcome with
  | .ok x => return .result (.ok (f x))
  | .error e => return .result (.error e)

/-- A step that answers nothing. -/
def quiet (f : State → State) : Action State Answer := do
  State.change f
  return .plain .nothing

/-- A step that makes no sense. -/
def misuse : Action State Answer := quiet fun s => { s with misused := true }

/-- Uses the migrator, if there is one. -/
def withMigrator (s : Session) (f : Migrator State → Action State Answer) :
    Action State Answer :=
  match s.migrator with
  | some m => f m
  | none => misuse

/-- Uses the transaction of a handle, if there is one. -/
def withHandle (s : Session) (n : Nat) (f : Transaction State → Action State Answer) :
    Action State Answer := do
  match (← State.now).handles[n]? with
  | some h => f (s.raw.transaction (State.token h.token) h.number)
  | none => misuse

/-- A call on the migrator that takes a limit. -/
def runMove (m : Migrator State) (ctx : Context State) (move : Move) (limit : Limit) :
    Action State Reply := do
  let files := (← State.now).files
  match move with
  | .up => return .summary (← m.up files ctx limit)
  | .down => return .summary (← m.down files ctx limit)
  | .redo => return .summary (← m.redo files ctx limit)
  | .history => return .applied (← m.applied ctx limit)
  | .pending => return .files (← m.pending files ctx limit)

/-- Opens a transaction and keeps a handle on it. -/
def open_ (s : Session) (ctx : Context State) : Action State Unit := do
  let token := (← State.now).current
  let number ← s.raw.begin ctx.token
  State.change fun st => { st with handles := st.handles ++ [⟨token, number⟩] }

/-- What stands at the path of a name in the directory. -/
def pathOf (s : Session) (name : String) : String := Files.join s.directory name

mutual

/-- Carries out a step in a context. -/
def perform (s : Session) (ctx : Context State) : Step → Action State Answer
  | .ping => reply (fun _ => .unit) (s.connection.ping ctx)
  | .close => reply (fun _ => .unit) s.connection.close
  | .cancel => do
    ctx.token.cancel
    return .plain .nothing
  | .freshContext => quiet fun st => { st with current := st.tokens, tokens := st.tokens + 1 }
  | .context => do
    let st ← State.now
    return .plain (.context (ctx.display st) (ctx.token.isRaised st) ctx.transaction.isSome)
  | .exec text args => reply .exec (s.connection.exec ctx text args)
  | .query text args => reply .rows (s.connection.query ctx text args)
  | .transaction ofHistory steps fail => do
    let outer := (← State.now).inner
    State.change fun st => { st with inner := [] }
    let body (inner : Context State) : Action State Unit := do
      performAll s inner steps
      match fail with
      | some message => throw (.driver message)
      | none => return ()
    let r ← Action.outcome <| match ofHistory, s.migrator with
      | true, some m => m.history.transaction ctx body
      | true, none => State.change fun st => { st with misused := true }
      | false, _ => s.connection.transaction ctx body
    let answers := (← State.now).inner
    State.change fun st => { st with inner := outer }
    return .transaction r answers
  | .tolerant step => perform s ctx step
  | .begin => reply (fun _ => .unit) (s.open_ ctx)
  | .handleExec n text args => s.withHandle n fun t => reply .exec (t.exec ctx.token text args)
  | .handleQuery n text args => s.withHandle n fun t => reply .rows (t.query ctx.token text args)
  | .handleCommit n => s.withHandle n fun t => reply (fun _ => .unit) t.commit
  | .handleRollback n => s.withHandle n fun t => reply (fun _ => .unit) t.rollback
  | .within n step => s.withHandle n fun t => perform s (ctx.inside t) step
  | .info => s.withMigrator fun m =>
    return .plain (.history m.history.driver m.history.table m.history.alwaysSafe)
  | .migrations limit => s.withMigrator fun m => reply .applied (m.history.list ctx limit)
  | .hasTable => s.withMigrator fun m => reply .flag (m.history.isCreated ctx)
  | .createTable => s.withMigrator fun m => reply (fun _ => .unit) (m.history.create ctx)
  | .dropTable => s.withMigrator fun m => reply (fun _ => .unit) (m.history.drop ctx)
  | .insert version => s.withMigrator fun m =>
    reply (fun _ => .unit) (m.history.insert ctx version)
  | .remove version => s.withMigrator fun m =>
    reply (fun _ => .unit) (m.history.remove ctx version)
  | .contains version => s.withMigrator fun m => reply .flag (m.history.contains ctx version)
  | .count => s.withMigrator fun m => reply (fun n => .text (toString n)) (m.history.count ctx)
  | .historyExec text args => s.withMigrator fun m =>
    reply (fun _ => .unit) (m.history.exec ctx text args)
  | .scalar text args destination => s.withMigrator fun m => reply .datum do
    .ofExcept ((← m.history.scalar ctx text args).read destination)
  | .move move limit => s.withMigrator fun m => reply id do
    runMove m ctx move (← .ofExcept (Limit.readOr limit .all))
  | .moveTo version => s.withMigrator fun m => reply .summary do
    m.moveTo (← State.now).files ctx version
  | .create name => s.withMigrator fun m =>
    reply .paths (Scaffold.create State.filesPart m.prompter s.now m.directory name)
  | .upgrade version script safely => s.withMigrator fun m =>
    reply (fun _ => .unit) (m.upgrade ctx version script safely)
  | .downgrade version script safely => s.withMigrator fun m =>
    reply (fun _ => .unit) (m.downgrade ctx version script safely)
  | .closeService => reply (fun _ => .unit) (if s.owned then s.connection.close else pure ())
  | .statements name => reply .texts do
    .ofExcept (MigrationFile.statements (← State.now).files ⟨"", false, .up, s.pathOf name⟩)
  | .write name content => quiet fun st =>
    { st with files := st.files.write (s.pathOf name) content }
  | .delete name => quiet fun st =>
    { st with files := st.files.erase (s.pathOf name) }
  | .list => do
    return .plain (.sizes ((← State.now).files.listing s.directory))
  | .respond fragment rows => quiet fun st =>
    { st with recorder := { st.recorder with
      responses := st.recorder.responses ++ [(fragment, rows)] } }
  | .failOn fragment message => quiet fun st =>
    { st with recorder := { st.recorder with
      failures := st.recorder.failures ++ [(fragment, message)] } }
  | .failCommit message => quiet fun st =>
    { st with recorder := { st.recorder with commitFailure := some message } }
  | .failPing message => quiet fun st =>
    { st with recorder := { st.recorder with pingFailure := some message } }
  | .clear => quiet fun st =>
    { st with recorder := { st.recorder with statements := [] }, seen := 0 }
  | .received => do
    return .plain (.texts ((← State.now).recorder.statements.map (·.text)))

/-- Carries out the steps of a transaction's body; the first failure ends it. -/
def performAll (s : Session) (ctx : Context State) : List Step → Action State Unit
  | [] => return ()
  | step :: rest => do
    let answer ← perform s ctx step
    State.change fun st => { st with inner := st.inner ++ [answer] }
    match answer.failure?, step with
    | none, _ => performAll s ctx rest
    | some _, .tolerant _ => performAll s ctx rest
    | some f, _ => throw f

end

/-- What a step answered and left behind. -/
structure Report where
  answer : Answer
  statements : List Recorded
  visits : List Visit
  packets : List (Option (List UInt8))
  events : List SqlEvent
  /-- Pings, begins, commits and rollbacks so far. -/
  counts : Nat × Nat × Nat × Nat
  history : List Applied
  asked : List String
  journal : List (Level × String)

/-- What there is to be shown after a step. -/
def report (answer : Answer) (s : State) : Report where
  answer := answer
  statements := s.recorder.statements.drop s.seen
  visits := s.http.log
  packets := s.iproto.log
  events := s.sql.log
  counts := (s.recorder.pings, s.recorder.begins, s.recorder.commits, s.recorder.rollbacks)
  history := s.memory.listing
  asked := s.asked
  journal := s.journal

/-- The state once everything has been shown. -/
def shown (s : State) : State :=
  { s with
    seen := s.recorder.statements.length
    http := { s.http with log := [] }
    iproto := { s.iproto with log := [] }
    sql := { s.sql with log := [] }
    asked := []
    journal := [] }

/-- Carries out steps from a state, each in the current context. A step that makes no sense
spoils the session. -/
def runFrom (s : Session) : State → List Step → Option (List Report)
  | _, [] => some []
  | st, step :: rest =>
    let ctx := Context.ofToken (State.token st.current)
    let (r, st) := (perform s ctx step).perform st
    if st.misused then none
    else match r with
      | .error _ => none
      | .ok answer => (runFrom s (shown st) rest).map (report answer st :: ·)

/-- How a history is chosen. -/
inductive HistoryChoice where
  | none
  | memory (alwaysSafe : Bool) (broken : List String)
  | table (o : Dialect.Options)

/-- How a session is set up. -/
structure Setup where
  dsn : String
  /-- Whether the recorder takes the place of the product. -/
  recorded : Bool
  /-- The number of attempts when the connection is made sure of. -/
  connect : Option Int32
  /-- Whether there is a second backend for the handles. -/
  raw : Bool
  history : HistoryChoice
  directory : String
  /-- Whether the migrator closes the connection. -/
  owned : Bool
  interactive : Bool
  compact : Bool
  now : Instant

/-- The connection of a session. -/
def openConnection (u : Setup) : Action State (Connection State) :=
  match u.connect with
  | some attempts => do
    if u.dsn.isEmpty then throw (.config "a DSN is required")
    State.connect u.dsn attempts
  | none =>
    if u.recorded then do
      let dsn ← .ofExcept (Dsn.parse u.dsn)
      let backend := Fault.guard State.faultsPart (Recorder.backend dsn.driver State.recorderPart)
      return ⟨dsn, backend, State.reachedPart⟩
    else State.openConnection u.dsn

/-- The backend of the handles of a session. -/
def openRaw (u : Setup) (c : Connection State) : Action State (Backend State) := do
  if u.raw && !u.recorded then
    .ofExcept (State.openBackend (← State.now).environment c.dsn State.secondPart)
  else return c.backend

/-- The history of a session. -/
def openHistory (u : Setup) (c : Connection State) : Except Failure (Option (History State)) :=
  match u.history with
  | .none => .ok none
  | .memory alwaysSafe broken => .ok (some (Memory.history State.memoryPart c alwaysSafe broken))
  | .table o => do
    let d ← Dialect.choose c.driver c.dsn o
    return some (d.history c (return u.now.seconds))

/-- Sets a session up. -/
def ofSetup (u : Setup) : Action State Session := do
  let c ← openConnection u
  let raw ← openRaw u c
  let history ← .ofExcept (openHistory u c)
  return {
    connection := c
    raw := raw
    migrator := history.map fun h => {
      history := h
      directory := u.directory
      compact := u.compact
      prompter := if u.interactive then some State.ask else none
      journal := State.tell }
    owned := u.owned
    directory := u.directory
    now := u.now }

/-- Sets a session up and carries out its steps. The answer is the failure of the setup, or
the reports; nothing when a step made no sense. -/
def run (u : Setup) (st : State) (steps : List Step) :
    Except Failure (Option (List Report)) :=
  let (r, st) := (ofSetup u).perform st
  r.map fun s => runFrom s st steps

end Session

end SchemaMigration.Scripted
