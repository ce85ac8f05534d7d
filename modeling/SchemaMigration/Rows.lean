import SchemaMigration.Value.Reading
/-! # Result sets

A result set is read forward: `next` moves to a row, and the row is read as a whole or by
column. A statement that returns no rows answers with two optional numbers instead. -/
namespace SchemaMigration

/-- A result set with the rows not yet visited and the row reached. -/
structure Rows where
  columns : List String
  pending : List (List Value)
  current : Option (List Value)
  closed : Bool
  deriving Repr

namespace Rows

/-- A result set at its start. -/
def ofRows (columns : List String) (rows : List (List Value)) : Rows := ⟨columns, rows, none, false⟩

/-- The result set without columns and rows. -/
def empty : Rows := ofRows [] []

/-- One row for each value: a tuple spreads into columns. -/
def spread : Value → List Value
  | .tuple vs => vs
  | v => [v]

/-- A result set from values, with numbered columns. -/
def ofValues (values : List Value) : Rows :=
  let rows := values.map spread
  let width := match rows with
    | [] => 0
    | row :: _ => row.length
  ofRows ((List.range width).map fun i => s!"column{i}") rows

/-- The number of rows not yet visited. -/
def remaining (r : Rows) : Nat := r.pending.length

/-- Moves to the next row and says whether there is one. -/
def next (r : Rows) : Bool × Rows :=
  if r.closed then (false, r)
  else match r.pending with
    | [] => (false, { r with current := none })
    | row :: rest => (true, { r with current := some row, pending := rest })

/-- Reads each value of a row into its destination. -/
def readRow : List Destination → List Value → Except Failure (List Datum)
  | d :: ds, v :: vs => do
    let x ← v.read d
    let xs ← readRow ds vs
    return x :: xs
  | _, _ => .ok []

/-- Reads a whole row; there must be as many destinations as columns. -/
def scanRow (ds : List Destination) (row : List Value) : Except Failure (List Datum) :=
  if row.length = ds.length then readRow ds row else .error (.arity row.length ds.length)

/-- Reads the row reached. -/
def scan (r : Rows) (ds : List Destination) : Except Failure (List Datum) :=
  match r.current with
  | none => .error .noRows
  | some row => scanRow ds row

/-- Reads one column of the row reached. -/
def get (r : Rows) (index : Nat) (d : Destination) : Except Failure Datum :=
  match r.current with
  | none => .error .noRows
  | some row =>
    match row[index]? with
    | some v => v.read d
    | none => .error (.arity row.length (index + 1))

/-- Lets go of the rows that are left. -/
def close (r : Rows) : Rows := { r with closed := true, pending := [], current := none }

/-- The rows that a walk to the end still visits. -/
def unvisited (r : Rows) : List (List Value) := if r.closed then [] else r.pending

/-- Reads all rows not yet visited. -/
def collect (r : Rows) (ds : List Destination) : Except Failure (List (List Datum)) :=
  r.unvisited.mapM (scanRow ds)

/-- The first column of the next row. -/
def scalar (r : Rows) : Except Failure Value :=
  match r.unvisited with
  | [] => .error .noRows
  | row :: _ =>
    match row with
    | [] => .error (.arity 0 1)
    | v :: _ => .ok v

end Rows

/-- The answer to a statement without rows. -/
structure ExecResult where
  lastInsertId : Option Int64
  rowsAffected : Option UInt64
  deriving DecidableEq, Repr

namespace ExecResult

/-- The answer of a product that reports neither number. -/
def unsupported : ExecResult := ⟨none, none⟩

/-- The number given to the row inserted last. -/
def insertId (r : ExecResult) : Except Failure Int :=
  match r.lastInsertId with
  | some n => .ok n.toInt
  | none => .error (.unsupported "LastInsertId")

/-- The number of rows that the statement changed, as a signed number. -/
def affected (r : ExecResult) : Except Failure Int :=
  match r.rowsAffected with
  | some n =>
    if n.toNat < Nat.pow 2 63 then .ok n.toNat else .error (.conversion "uint" "i64")
  | none => .error (.unsupported "RowsAffected")

end ExecResult

end SchemaMigration
