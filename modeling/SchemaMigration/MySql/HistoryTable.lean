import SchemaMigration.History.Dialect
/-! # History tables on MySQL

Statements name the table without its database, which the connection is bound to. -/
namespace SchemaMigration.MySql

/-- The names that a history table goes by. -/
structure HistoryTable where
  database : String
  table : String
  deriving DecidableEq, Repr

namespace HistoryTable

/-- Gives a server's error the common shape; its details are the SQL state. -/
def report (sent : String) (f : Failure) : Failure :=
  match f with
  | .database (.server (.mySql number state message)) =>
    .server ⟨toString number, "ERROR", message, state.getD "", sent⟩ f
  | f => f

/-- The statements for the table. -/
def dialect (t : HistoryTable) : Dialect where
  driver := .mySql
  table := t.database ++ "." ++ t.table
  alwaysSafe := false
  list limit := "SELECT version, apply_time FROM " ++ t.table
    ++ " ORDER BY apply_time DESC, version DESC" ++ Dialect.limitClause limit
  probe := ⟨"SELECT EXISTS(SELECT * FROM information_schema.tables"
      ++ " WHERE table_name = ? AND table_schema = ?)",
    [.text t.table, .text t.database]⟩
  probeVerdict := .truth
  create := ["CREATE TABLE " ++ t.table
    ++ " (version VARCHAR(180) PRIMARY KEY, apply_time INT) ENGINE=InnoDB"]
  drop := ["DROP TABLE " ++ t.table]
  insert version time := [.plain
    ⟨"INSERT INTO " ++ t.table ++ " (version, apply_time) VALUES (?, ?)",
      [.text version, .int (Int64.ofInt time)]⟩]
  remove version _ := [.plain
    ⟨"DELETE FROM " ++ t.table ++ " WHERE version = ?", [.text version]⟩]
  count := "SELECT COUNT(*) FROM " ++ t.table
  contains version :=
    ⟨"SELECT EXISTS(SELECT 1 FROM " ++ t.table ++ " WHERE version = ?)", [.text version]⟩
  containsVerdict := .truth
  report := report

end HistoryTable

end SchemaMigration.MySql
