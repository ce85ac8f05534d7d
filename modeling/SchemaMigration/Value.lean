import SchemaMigration.Calendar
import SchemaMigration.Number.Shortest
import SchemaMigration.Text.Utf8
/-! # Values

A value is what a column holds and what a placeholder stands for, whatever the product.
Its text is the one that a reader who asks for a string gets. -/
namespace SchemaMigration

open Number

/-- A column value, or a tuple of them. -/
inductive Value where
  | null
  | bool (b : Bool)
  | int (n : Int64)
  | uint (n : UInt64)
  | float (x : Double)
  | text (s : String)
  | bytes (bs : List UInt8)
  | time (t : Instant)
  | tuple (vs : List Value)
  deriving Repr

namespace Value

/-- The kind of a value, as conversion errors name it. -/
def kind : Value → String
  | null => "null"
  | bool _ => "bool"
  | int _ => "int"
  | uint _ => "uint"
  | float _ => "float"
  | text _ => "text"
  | bytes _ => "bytes"
  | time _ => "time"
  | tuple _ => "tuple"

/-- Whether a value is the null of its product. -/
def isNull : Value → Bool
  | null => true
  | _ => false

/-- The text of a truth value. -/
def boolText (b : Bool) : String := if b then "true" else "false"

mutual

/-- The text of a value. -/
def display : Value → String
  | null => "NULL"
  | bool b => boolText b
  | int n => toString n.toInt
  | uint n => toString n.toNat
  | float x => x.display
  | text s => s
  | bytes bs => String.ofList (Text.Utf8.decodeLossy bs)
  | time t => t.display
  | tuple vs => "(" ++ ", ".intercalate (displayAll vs) ++ ")"

/-- The texts of several values. -/
def displayAll : List Value → List String
  | [] => []
  | v :: vs => v.display :: displayAll vs

end

end Value

end SchemaMigration
