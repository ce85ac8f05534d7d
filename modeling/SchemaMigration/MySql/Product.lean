import SchemaMigration.Sql.Client
/-! # The types of MySQL

Times keep their microseconds. The number of the row inserted last is reported when it fits a
signed number. -/
namespace SchemaMigration.MySql

/-- A time without the digits that the server does not keep. -/
def toMicroseconds (t : Instant) : Instant := { t with nanos := t.nanos / 1000 * 1000 }

/-- The form in which a value is sent. -/
def argument : Value → Except Failure Sql.Argument
  | .null => .ok ⟨"NULL", .null⟩
  | .bool b => .ok ⟨"BOOLEAN", .bool b⟩
  | .int n => .ok ⟨"BIGINT", .int n⟩
  | .uint n => .ok ⟨"BIGINT UNSIGNED", .uint n⟩
  | .float x => .ok ⟨"DOUBLE", .float x⟩
  | .text s => .ok ⟨"VARCHAR", .text s⟩
  | .bytes bs => .ok ⟨"BLOB", .bytes bs⟩
  | .time t => .ok ⟨"TIMESTAMP", .time (toMicroseconds t)⟩
  | .tuple _ => .error (.bind (.tuple "MySQL"))

/-- The types whose cells are read as they arrive. -/
def plainTypes : List String :=
  ["BOOLEAN", "TINYINT", "SMALLINT", "INT", "MEDIUMINT", "BIGINT", "TINYINT UNSIGNED",
    "SMALLINT UNSIGNED", "INT UNSIGNED", "MEDIUMINT UNSIGNED", "BIGINT UNSIGNED", "DOUBLE",
    "BINARY", "VARBINARY", "BLOB", "TINYBLOB", "MEDIUMBLOB", "LONGBLOB", "CHAR", "VARCHAR",
    "TEXT", "TINYTEXT", "MEDIUMTEXT", "LONGTEXT", "ENUM"]

/-- The value of a cell. -/
def cell (type : String) (v : Value) : Option Value :=
  if type ∈ plainTypes then some v
  else if type = "FLOAT" then
    match v with
    | .float x => some (.float x.toSingle.toDouble)
    | v => some v
  else if type = "TIMESTAMP" ∨ type = "DATETIME" then
    match v with
    | .time t => some (.time (toMicroseconds t))
    | v => some v
  else none

/-- Whether a value can be sent: the year of a time takes sixteen bits. -/
def isSendable : Value → Bool
  | .time t => 0 ≤ t.date.year && t.date.year ≤ 65535
  | _ => true

/-- A statement takes as many arguments as it has question marks. -/
def objection (text : String) (args : List Sql.Argument) : Option DatabaseFault :=
  let expected := text.toList.count '?'
  if !args.all (fun a => isSendable a.value) then some .argumentRange
  else if expected ≠ args.length then some (.argumentCount expected args.length)
  else none

/-- MySQL as a product. -/
def product : Sql.Product where
  driver := .mySql
  argument := argument
  cell := cell
  result r :=
    ⟨if r.insertId.toNat < Nat.pow 2 63 then some (Int64.ofNat r.insertId.toNat) else none,
      some r.affected⟩
  objection := objection

end SchemaMigration.MySql
