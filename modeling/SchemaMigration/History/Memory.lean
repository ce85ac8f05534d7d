import SchemaMigration.Connection
import SchemaMigration.History.Basic
/-! # Histories in memory

A history in memory keeps its records itself and takes the times from a clock of its own,
which moves on by a second with each record. Only the statements of scripts go through a
connection. -/
namespace SchemaMigration

/-- The records of a history in memory. -/
structure Memory where
  /-- In the order in which they were made. -/
  records : List Applied
  /-- Whether the table exists. -/
  isCreated : Bool
  /-- The time of the next record. -/
  clock : Int
  deriving Repr

namespace Memory

variable {σ : Type}

/-- The time of the first record. -/
def firstTime : Int := 1616969760

/-- A history without records. -/
def empty : Memory := ⟨[], false, firstTime⟩

/-- Records a version now. -/
def record (m : Memory) (version : String) : Memory :=
  { m with records := m.records ++ [⟨version, m.clock⟩], clock := m.clock + 1 }

/-- A history whose table exists and holds versions, the oldest first. -/
def ofVersions (versions : List String) : Memory :=
  versions.foldl record { empty with isCreated := true }

/-- Forgets every record of a version. -/
def forget (m : Memory) (version : String) : Memory :=
  { m with records := m.records.filter fun r => r.version != version }

/-- The records, newest first. -/
def listing (m : Memory) : List Applied := Applied.newestFirst m.records

/-- The name of the table. -/
def tableName : String := "memory.migration"

/-- Fails for the versions that cannot be written. -/
def checkWritable (broken : List String) (version : String) : Action σ Unit :=
  if version ∈ broken then throw (.driver "history is read-only") else pure ()

/-- The history of a memory that is part of a state. -/
def history (place : Part σ Memory) (c : Connection σ) (alwaysSafe : Bool)
    (broken : List String) : History σ where
  driver := c.driver
  table := tableName
  alwaysSafe := alwaysSafe
  list _ limit := do return Applied.atMost limit (← place.read).listing
  isCreated _ := do return (← place.read).isCreated
  create _ := place.change fun m => { m with isCreated := true }
  drop _ := place.change fun m => { m with isCreated := false, records := [] }
  insert ctx version := do
    ctx.token.check
    checkWritable broken version
    place.change fun m => m.record version
  remove ctx version := do
    ctx.token.check
    checkWritable broken version
    place.change fun m => m.forget version
  count _ := do return (← place.read).records.length
  contains _ version := do return (← place.read).records.any fun r => r.version == version
  exec ctx text args := do
    let _ ← c.exec ctx text args
  scalar ctx text args := do
    let rows ← c.query ctx text args
    .ofExcept rows.scalar
  transaction ctx body := c.transaction ctx body

end Memory

end SchemaMigration
