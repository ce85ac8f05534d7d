import SchemaMigration.History.Dialect
import SchemaMigration.Text.Cut
/-! # History tables on PostgreSQL

The table is addressed with its schema throughout. -/
namespace SchemaMigration.Postgres

/-- The schema of a table that is named without one. -/
def standardSchema : String := "public"

/-- The names that a history table goes by. -/
structure HistoryTable where
  schema : String
  table : String
  deriving DecidableEq, Repr

namespace HistoryTable

/-- The name with its schema. -/
def qualified (t : HistoryTable) : String := t.schema ++ "." ++ t.table

/-- Gives a server's error the common shape. The statement that the server names wins over
the one that was sent. -/
def report (sent : String) (f : Failure) : Failure :=
  match f with
  | .database (.server (.postgres severity code message detail internalQuery)) =>
    .server ⟨code, severity, message, detail.getD "", internalQuery.getD sent⟩ f
  | f => f

/-- The statements for the table. -/
def dialect (t : HistoryTable) : Dialect where
  driver := .postgres
  table := t.qualified
  alwaysSafe := false
  list limit := "SELECT version, apply_time FROM " ++ t.qualified
    ++ " ORDER BY apply_time DESC, version DESC" ++ Dialect.limitClause limit
  probe := ⟨"SELECT COUNT(*) FROM pg_class c JOIN pg_namespace n ON n.oid = c.relnamespace"
      ++ " WHERE (c.relname, n.nspname) = ($1, $2)",
    [.text t.table, .text t.schema]⟩
  probeVerdict := .positive .i64
  create := ["CREATE TABLE " ++ t.qualified
    ++ " (version varchar(180) PRIMARY KEY, apply_time integer)"]
  drop := ["DROP TABLE " ++ t.qualified]
  insert version time := [.plain
    ⟨"INSERT INTO " ++ t.qualified ++ " (version, apply_time) VALUES ($1, $2)",
      [.text version, .int (Int64.ofInt time)]⟩]
  remove version _ := [.plain
    ⟨"DELETE FROM " ++ t.qualified ++ " WHERE (version) = ($1)", [.text version]⟩]
  count := "SELECT COUNT(*) FROM " ++ t.qualified
  contains version :=
    ⟨"SELECT EXISTS(SELECT 1 FROM " ++ t.qualified ++ " WHERE version = $1)", [.text version]⟩
  containsVerdict := .truth
  report := report

end HistoryTable

end SchemaMigration.Postgres
