import SchemaMigration.Connection
/-! # Products that are reached through a pool

PostgreSQL and MySQL are asked over connections of a pool. A statement without arguments goes
as a text, and one with arguments is prepared; so is every statement that returns rows. The
products differ in the types of their arguments and columns, which a `Product` describes. -/
namespace SchemaMigration.Sql

/-- An argument with the type that it is sent as. -/
structure Argument where
  type : String
  value : Value
  deriving Repr

/-- A statement as it goes to the server. -/
inductive Command where
  | simple (text : String)
  | prepared (text : String) (args : List Argument)
  deriving Repr

/-- What a server answers: the columns with their types, the rows, and the two numbers of a
statement without rows. -/
structure Reply where
  columns : List (String × String)
  rows : List (List Value)
  affected : UInt64
  insertId : UInt64
  deriving Repr

/-- The way to the server. -/
structure Wire (σ : Type) where
  /-- Makes sure that there is a connection. -/
  reach : Action σ Unit
  send : Command → Action σ Reply

/-- What sets a product apart. -/
structure Product where
  driver : Driver
  /-- The form in which a value is sent. -/
  argument : Value → Except Failure Argument
  /-- The value of a cell of a type; types that cannot be read have none. -/
  cell : String → Value → Option Value
  /-- The answer to a statement without rows. -/
  result : Reply → ExecResult
  /-- What keeps a statement from being prepared and sent with its arguments, if anything
  does. -/
  objection : String → List Argument → Option DatabaseFault

namespace Product

/-- Prepares a statement, unless the product objects to it. -/
def prepare (p : Product) (text : String) (args : List Argument) : Except Failure Command :=
  match p.objection text args with
  | none => .ok (.prepared text args)
  | some fault => .error (.database fault)

/-- Reads the cells of a row. -/
def readCells (p : Product) :
    List (String × String) → List Value → Except Failure (List Value)
  | (name, type) :: columns, v :: vs => do
    let some x := if v.isNull then some v else p.cell type v
      | throw (.database (.columnType name))
    let xs ← p.readCells columns vs
    return x :: xs
  | _, _ => .ok []

/-- Reads the rows of an answer. Without rows there are no columns. -/
def readRows (p : Product) (r : Reply) : Except Failure Rows := do
  let rows ← r.rows.mapM (p.readCells r.columns)
  return if rows.isEmpty then .empty else .ofRows (r.columns.map (·.1)) rows

end Product

/-- What a client remembers. -/
structure Client where
  /-- Whether the pool has been closed. -/
  closed : Bool
  /-- For each transaction, whether it is open. -/
  transactions : List Bool
  deriving Repr

namespace Client

variable {σ : Type}

/-- A client at its start. -/
def start : Client := ⟨false, []⟩

variable (p : Product) (wire : Wire σ) (place : Part σ Client)

/-- Takes a connection from the pool. -/
def acquire : Action σ Unit := do
  if (← place.read).closed then throw (.database .poolClosed)
  wire.reach

/-- Runs a statement that returns rows; `ready` provides the connection. -/
def query (ready : Action σ Unit) (text : String) (args : List Value) : Action σ Rows := do
  let args ← .ofExcept (args.mapM p.argument)
  ready
  let r ← wire.send (← .ofExcept (p.prepare text args))
  .ofExcept (p.readRows r)

/-- Runs a statement that returns no rows; `ready` provides the connection. -/
def exec (ready : Action σ Unit) (text : String) (args : List Value) :
    Action σ ExecResult := do
  let args ← .ofExcept (args.mapM p.argument)
  ready
  let command ← if args.isEmpty then pure (.simple text) else .ofExcept (p.prepare text args)
  return p.result (← wire.send command)

/-- Fails when a transaction is closed. -/
def checkOpen (id : Nat) : Action σ Unit := do
  unless (← place.read).transactions.getD id false do throw .transactionAlreadyClosed

/-- Ends a transaction with a statement. -/
def finish (id : Nat) (text : String) : Action σ Unit := do
  checkOpen place id
  place.change fun c => { c with transactions := c.transactions.set id false }
  let _ ← wire.send (.simple text)

/-- A transaction; it holds its connection. -/
def transaction (id : Nat) : Transaction σ where
  query token text args := do
    checkOpen place id
    token.guard (query p wire (pure ()) text args)
  exec token text args := do
    checkOpen place id
    token.guard (exec p wire (pure ()) text args)
  commit := finish wire place id "COMMIT"
  rollback := finish wire place id "ROLLBACK"

/-- The backend of a client that is part of a state. -/
def backend : Backend σ where
  driver := p.driver
  ping token := token.guard (acquire wire place)
  query token text args := token.guard (query p wire (acquire wire place) text args)
  exec token text args := token.guard (exec p wire (acquire wire place) text args)
  begin token := do
    token.guard do
      acquire wire place
      let _ ← wire.send (.simple "BEGIN")
    let id := (← place.read).transactions.length
    place.change fun c => { c with transactions := c.transactions ++ [true] }
    return id
  transaction _ id := transaction p wire place id
  close := place.change fun c => { c with closed := true }

end Client

end SchemaMigration.Sql
