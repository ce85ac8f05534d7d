import SchemaMigration.Sql.Client
/-! # The types of PostgreSQL

All integers are sent as `INT8`, so that one beyond it cannot be sent. Times are numbers of
microseconds before or after the start of 2000. -/
namespace SchemaMigration.Postgres

/-- The start of 2000, in seconds. -/
def epoch : Int := 946684800

/-- The nanoseconds from the start of 2000 to a time. A leap second runs into the second that
follows it. -/
def elapsed (t : Instant) : Int := (t.seconds - epoch) * 1000000000 + t.nanos

/-- The time at a number of microseconds from the start of 2000. -/
def ofMicroseconds (m : Int) : Instant :=
  ⟨epoch + m.fdiv 1000000, (m.fmod 1000000).toNat * 1000⟩

/-- A time as it is sent: what is less than a microsecond is cut off, toward the start of
2000. -/
def sentTime (t : Instant) : Instant := ofMicroseconds ((elapsed t).tdiv 1000)

/-- A time as it is read from a cell: the microsecond that it lies in. -/
def cellTime (t : Instant) : Instant := ofMicroseconds ((elapsed t).fdiv 1000)

/-- The form in which a value is sent. -/
def argument : Value → Except Failure Sql.Argument
  | .null => .ok ⟨"TEXT", .null⟩
  | .bool b => .ok ⟨"BOOL", .bool b⟩
  | .int n => .ok ⟨"INT8", .int n⟩
  | .uint n =>
    if n.toNat < Nat.pow 2 63 then .ok ⟨"INT8", .int (Int64.ofNat n.toNat)⟩
    else .error (.bind (.tooLarge n))
  | .float x => .ok ⟨"FLOAT8", .float x⟩
  | .text s => .ok ⟨"TEXT", .text s⟩
  | .bytes bs => .ok ⟨"BYTEA", .bytes bs⟩
  | .time t => .ok ⟨"TIMESTAMPTZ", .time (sentTime t)⟩
  | .tuple _ => .error (.bind (.tuple "PostgreSQL"))

/-- The types whose cells are read as they arrive. -/
def plainTypes : List String :=
  ["BOOL", "INT2", "INT4", "INT8", "FLOAT8", "BYTEA", "TEXT", "VARCHAR", "NAME", "BPCHAR",
    "UNKNOWN"]

/-- The value of a cell. -/
def cell (type : String) (v : Value) : Option Value :=
  if type ∈ plainTypes then some v
  else if type = "FLOAT4" then
    match v with
    | .float x => some (.float x.toSingle.toDouble)
    | v => some v
  else if type = "TIMESTAMP" ∨ type = "TIMESTAMPTZ" then
    match v with
    | .time t => some (.time (cellTime t))
    | v => some v
  else none

/-- PostgreSQL as a product; it reports no number for the row inserted last. -/
def product : Sql.Product where
  driver := .postgres
  argument := argument
  cell := cell
  result r := ⟨none, some r.affected⟩
  objection _ _ := none

end SchemaMigration.Postgres
