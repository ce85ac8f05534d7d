import SchemaMigration.History.Dialect
/-! # History tables on ClickHouse

The table only grows: forgetting a version adds a row that says so, and merging keeps the
newest row of each version. On a cluster whose table is not replicated, reads go through a
second table that spans the cluster. -/
namespace SchemaMigration.ClickHouse

/-- The names that a history table goes by. -/
structure HistoryTable where
  database : String
  table : String
  /-- Empty when there is no cluster. -/
  cluster : String
  replicated : Bool
  deriving DecidableEq, Repr

namespace HistoryTable

/-- Whether the table is spread over a cluster. -/
def isSpread (t : HistoryTable) : Bool := !t.replicated && !t.cluster.isEmpty

/-- The table that holds the rows. -/
def base (t : HistoryTable) : String := t.database ++ "." ++ t.table

/-- The table that spans the cluster. -/
def spanning (t : HistoryTable) : String := t.database ++ ".d_" ++ t.table

/-- The table that reads go to. -/
def readFrom (t : HistoryTable) : String := if t.isSpread then t.spanning else t.base

/-- The clause that sends a definition to the whole cluster. -/
def onCluster (t : HistoryTable) : String :=
  if t.isSpread then " ON CLUSTER " ++ t.cluster else ""

/-- The engine that merges the rows of a version. -/
def engine (t : HistoryTable) : String :=
  if t.replicated || t.isSpread then
    "ReplicatedReplacingMergeTree('/clickhouse/tables/\x7bshard\x7d/" ++ t.cluster ++ "_" ++ t.table
      ++ "', '\x7breplica\x7d', apply_time)"
  else "ReplacingMergeTree(apply_time)"

/-- The statements that make the table. -/
def create (t : HistoryTable) : List String :=
  ("CREATE TABLE " ++ t.base ++ t.onCluster
    ++ " (version String, date Date DEFAULT toDate(apply_time),"
    ++ " apply_time UInt32, is_deleted UInt8) ENGINE = " ++ t.engine
    ++ " PRIMARY KEY (version) PARTITION BY (toYYYYMM(date)) ORDER BY (version)"
    ++ " SETTINGS index_granularity=8192")
  :: if t.isSpread then
      ["CREATE TABLE " ++ t.spanning ++ t.onCluster ++ " AS " ++ t.base
        ++ " ENGINE = Distributed('" ++ t.cluster ++ "','" ++ t.database ++ "'," ++ t.table
        ++ ", cityHash64(toString(version)))"]
    else []

/-- The statements that take the table away. -/
def drop (t : HistoryTable) : List String :=
  if t.isSpread then
    ["DROP TABLE " ++ t.spanning ++ t.onCluster ++ " NO DELAY",
      "DROP TABLE " ++ t.base ++ t.onCluster ++ " NO DELAY"]
  else ["DROP TABLE " ++ t.base]

/-- Adds a row and merges, so that the newest row of the version counts. -/
def append (t : HistoryTable) (deleted : UInt64) (version : String) (time : Int) :
    List Change :=
  [.committed ⟨"INSERT INTO " ++ t.base ++ " (version, apply_time, is_deleted) VALUES (?, ?, ?)",
      [.text version, .int (Int64.ofInt time), .uint deleted]⟩,
    .plain ⟨"OPTIMIZE TABLE " ++ t.base ++ t.onCluster ++ " FINAL", []⟩]

/-- Gives an exception the common shape. -/
def report (sent : String) (f : Failure) : Failure :=
  match f with
  | .exception e => .server ⟨toString e.code, "ERROR", e.message, e.name, sent⟩ f
  | f => f

/-- The statements for the table. -/
def dialect (t : HistoryTable) : Dialect where
  driver := .clickHouse
  table := t.base
  alwaysSafe := true
  list limit := "SELECT version, apply_time FROM " ++ t.readFrom
    ++ " WHERE is_deleted = 0 ORDER BY apply_time DESC, version DESC" ++ Dialect.limitClause limit
  probe := ⟨"SELECT COUNT(*) FROM system.columns WHERE table = ? AND database = currentDatabase()",
    [.text t.table]⟩
  probeVerdict := .positive .u64
  create := t.create
  drop := t.drop
  insert := t.append 0
  remove := t.append 1
  count := "SELECT COUNT(*) FROM " ++ t.readFrom ++ " WHERE is_deleted = 0"
  contains version :=
    ⟨"SELECT COUNT(*) FROM " ++ t.readFrom ++ " WHERE version = ? AND is_deleted = 0",
      [.text version]⟩
  containsVerdict := .positive .u64
  report := report

end HistoryTable

end SchemaMigration.ClickHouse
