import SchemaMigration.Connection
import SchemaMigration.History.Basic
/-! # Histories in tables

A dialect says with which statements a product keeps a history table, and how its errors
read in the common shape. Given a connection, a dialect makes a history. -/
namespace SchemaMigration

/-- A statement with the arguments for its placeholders. -/
structure Statement where
  text : String
  args : List Value
  deriving Repr

/-- How an answer of one value is taken for yes or no. -/
inductive Verdict where
  | truth
  /-- A number of the type says yes when it is positive. -/
  | positive (t : IntegerType)
  deriving Repr

/-- Reads an answer. -/
def Verdict.read : Verdict → Value → Except Failure Bool
  | truth, v => v.toBool
  | positive t, v => (v.toInteger t).map fun n => decide (0 < n)

/-- A statement that changes the table. -/
inductive Change where
  | plain (s : Statement)
  /-- The statement runs in a transaction of its own. -/
  | committed (s : Statement)
  deriving Repr

/-- The statements for a history table. -/
structure Dialect where
  driver : Driver
  /-- The full name of the table. -/
  table : String
  /-- Whether scripts always run in a transaction. -/
  alwaysSafe : Bool
  /-- The listing, newest first; a limit of zero is none. -/
  list : Nat → String
  /-- Asks for the table. -/
  probe : Statement
  probeVerdict : Verdict
  create : List String
  drop : List String
  /-- Records a version at a time. -/
  insert : String → Int → List Change
  /-- Forgets a version at a time. -/
  remove : String → Int → List Change
  count : String
  /-- Asks for a version. -/
  contains : String → Statement
  containsVerdict : Verdict
  /-- Gives the product's own errors the common shape; the first argument is the statement
  that was sent. -/
  report : String → Failure → Failure

namespace Dialect

variable {σ : Type}

/-- The clause that bounds a listing. -/
def limitClause (limit : Nat) : String := if limit = 0 then "" else s!" LIMIT {limit}"

/-- Runs a statement without rows. -/
def exec (d : Dialect) (c : Connection σ) (ctx : Context σ) (s : Statement) : Action σ Unit :=
  Action.mapFailure (d.report s.text) do
    let _ ← c.exec ctx s.text s.args

/-- The first value that a statement returns. -/
def scalar (d : Dialect) (c : Connection σ) (ctx : Context σ) (s : Statement) :
    Action σ Value :=
  Action.mapFailure (d.report s.text) do
    let rows ← c.query ctx s.text s.args
    .ofExcept rows.scalar

/-- Runs statements without arguments, in order. -/
def execAll (d : Dialect) (c : Connection σ) (ctx : Context σ) (texts : List String) :
    Action σ Unit :=
  texts.forM fun text => d.exec c ctx ⟨text, []⟩

/-- Makes a change to the table. -/
def change (d : Dialect) (c : Connection σ) (ctx : Context σ) : Change → Action σ Unit
  | .plain s => d.exec c ctx s
  | .committed s => c.transaction ctx fun inner => do
    let _ ← c.exec inner s.text s.args

/-- Asks a question of yes or no. -/
def ask (d : Dialect) (c : Connection σ) (ctx : Context σ) (s : Statement) (v : Verdict) :
    Action σ Bool := do
  .ofExcept (v.read (← d.scalar c ctx s))

/-- Reads the listing. -/
def applied (d : Dialect) (c : Connection σ) (ctx : Context σ) (limit : Nat) :
    Action σ (List Applied) := do
  let rows ← Action.mapFailure (d.report (d.list limit)) (c.query ctx (d.list limit) [])
  .ofExcept (Applied.ofRows rows)

/-- The history that a dialect keeps over a connection. -/
def history (d : Dialect) (c : Connection σ) (clock : Action σ Int) : History σ where
  driver := d.driver
  table := d.table
  alwaysSafe := d.alwaysSafe
  list := d.applied c
  isCreated ctx := d.ask c ctx d.probe d.probeVerdict
  create ctx := d.execAll c ctx d.create
  drop ctx := d.execAll c ctx d.drop
  insert ctx version := do
    (d.insert version (← clock)).forM (d.change c ctx)
  remove ctx version := do
    (d.remove version (← clock)).forM (d.change c ctx)
  count ctx := do
    let n ← .ofExcept ((← d.scalar c ctx ⟨d.count, []⟩).toInteger .usize)
    return n.toNat
  contains ctx version := d.ask c ctx (d.contains version) d.containsVerdict
  exec ctx text args := d.exec c ctx ⟨text, args⟩
  scalar ctx text args := d.scalar c ctx ⟨text, args⟩
  transaction ctx body := c.transaction ctx body

end Dialect

end SchemaMigration
