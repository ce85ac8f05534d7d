import SchemaMigration.Context
/-! # Histories

A history knows which migrations have been applied to a target, and runs the statements of
their scripts. It is given as what it does: the products keep their histories in tables of
their own making, and a history may also live in memory. -/
namespace SchemaMigration

/-- A migration that has been applied, with the second of its application. -/
structure Applied where
  version : String
  time : Int
  deriving DecidableEq, Repr

namespace Applied

/-- Reads a row with a version and a time. -/
def ofRow (row : List Value) : Except Failure Applied :=
  match row with
  | [version, time] => do
    let version ← version.toText
    let time ← time.toInteger .i64
    return ⟨version, time⟩
  | row => .error (.arity row.length 2)

/-- Reads all rows of a listing. -/
def ofRows (rows : Rows) : Except Failure (List Applied) := rows.unvisited.mapM ofRow

/-- Whether `a` stands before `b` in a listing: later times first, and then greater
versions. -/
def newer (a b : Applied) : Bool :=
  b.time < a.time || (a.time == b.time && b.version < a.version)

/-- A listing, newest first. -/
def newestFirst (applied : List Applied) : List Applied :=
  applied.mergeSort fun a b => !b.newer a

/-- The first entries of a listing; zero stands for all of them. -/
def atMost (limit : Nat) (applied : List Applied) : List Applied :=
  if limit = 0 then applied else applied.take limit

end Applied

/-- What a history does. -/
structure History (σ : Type) where
  driver : Driver
  /-- The full name of the table. -/
  table : String
  /-- Whether every script runs in a transaction, whatever its file says. -/
  alwaysSafe : Bool
  /-- The applied migrations, newest first; a limit of zero gives all of them. -/
  list : Context σ → Nat → Action σ (List Applied)
  /-- Whether the table exists. -/
  isCreated : Context σ → Action σ Bool
  create : Context σ → Action σ Unit
  drop : Context σ → Action σ Unit
  /-- Records a version as applied now. -/
  insert : Context σ → String → Action σ Unit
  /-- Forgets a version. -/
  remove : Context σ → String → Action σ Unit
  /-- The number of applied migrations. -/
  count : Context σ → Action σ Nat
  /-- Whether a version is applied. -/
  contains : Context σ → String → Action σ Bool
  /-- Runs a statement of a script. -/
  exec : Context σ → String → List Value → Action σ Unit
  /-- The first column of the first row that a statement returns. -/
  scalar : Context σ → String → List Value → Action σ Value
  /-- Runs a body inside a transaction. -/
  transaction : Context σ → (Context σ → Action σ Unit) → Action σ Unit

end SchemaMigration
