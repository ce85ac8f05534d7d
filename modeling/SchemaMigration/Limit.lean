import SchemaMigration.Failure
import SchemaMigration.Number.Reading
import SchemaMigration.Text.Blank
import SchemaMigration.Text.Cut
/-! # Limits

A limit says how many migrations an operation may touch. The history tables take a number
in its place, in which zero stands for no limit. -/
namespace SchemaMigration

/-- How many migrations an operation may touch. -/
inductive Limit where
  | all
  | count (n : Nat)
  deriving DecidableEq, Repr

namespace Limit

/-- The limit as a number; zero stands for no limit. -/
def toNumber : Limit → Nat
  | all => 0
  | count n => n

/-- Keeps as many items as the limit allows. -/
def truncate {α : Type} : Limit → List α → List α
  | all, xs => xs
  | count n, xs => xs.take n

/-- The written form of a limit. -/
def display : Limit → String
  | all => "all"
  | count n => toString n

/-- Reads a limit: nothing or `all` for none, and else a positive number of 64 bits. -/
def read (arg : String) : Except Failure Limit :=
  let s := Text.trimmed arg
  if s.isEmpty ∨ Text.lower s = "all" then .ok .all
  else match Number.readUnsigned? s.toList with
    | some n => if 0 < n ∧ n < Nat.pow 2 64 then .ok (.count n) else .error (.invalidLimit s)
    | none => .error (.invalidLimit s)

/-- Reads a limit that may be left out. -/
def readOr (arg : Option String) (standard : Limit) : Except Failure Limit :=
  match arg with
  | some arg => read arg
  | none => .ok standard

end Limit

end SchemaMigration
