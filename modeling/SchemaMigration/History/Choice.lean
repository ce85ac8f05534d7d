import SchemaMigration.ClickHouse.HistoryTable
import SchemaMigration.ClickHouse.Settings
import SchemaMigration.Identifier
import SchemaMigration.MySql.HistoryTable
import SchemaMigration.Postgres.HistoryTable
import SchemaMigration.Tarantool.HistorySpace
/-! # The choice of a dialect

The names in the statements of a history are checked here, before anything is sent: they
stand in the statements without quotes. -/
namespace SchemaMigration.Dialect

/-- How a history table is named and spread. -/
structure Options where
  /-- The table, with its schema or without. -/
  table : String
  /-- The cluster of ClickHouse that holds the table, or nothing. -/
  cluster : String
  replicated : Bool
  deriving DecidableEq, Repr

/-- The options when none are given. -/
def Options.standard : Options := ⟨"migration", "", false⟩

/-- The dialect of ClickHouse. -/
def chooseClickHouse (dsn : Dsn) (o : Options) : Except Failure Dialect := do
  let settings ← ClickHouse.Settings.ofDsn dsn
  let (schema, table) := Identifier.splitQualified o.table
  let database := schema.getD settings.database
  Identifier.validateAll [database, table, o.cluster]
  return ClickHouse.HistoryTable.dialect ⟨database, table, o.cluster, o.replicated⟩

/-- The dialect of PostgreSQL. -/
def choosePostgres (o : Options) : Except Failure Dialect := do
  let (schema, table) := Identifier.splitQualified o.table
  let schema := schema.getD Postgres.standardSchema
  Identifier.validateAll [schema, table]
  return Postgres.HistoryTable.dialect ⟨schema, table⟩

/-- The dialect of MySQL. -/
def chooseMySql (dsn : Dsn) (o : Options) : Except Failure Dialect := do
  Identifier.validateAll [dsn.database, o.table]
  return MySql.HistoryTable.dialect ⟨dsn.database, o.table⟩

/-- The dialect of Tarantool. -/
def chooseTarantool (o : Options) : Except Failure Dialect := do
  Identifier.validate o.table
  return Tarantool.HistorySpace.dialect ⟨o.table⟩

/-- The dialect of a product for a history table. -/
def choose (driver : Driver) (dsn : Dsn) (o : Options) : Except Failure Dialect :=
  match driver with
  | .clickHouse => chooseClickHouse dsn o
  | .postgres => choosePostgres o
  | .mySql => chooseMySql dsn o
  | .tarantool => chooseTarantool o

end SchemaMigration.Dialect
