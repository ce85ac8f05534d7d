import SchemaMigration.Proofs.ActionFrames
import SchemaMigration.Proofs.IdentifierNames
import SchemaMigration.Proofs.TextCutting
import Mathlib.Data.Set.Insert
/-! # The table that is asked for

A history names its table three times over: where it makes and drops it, where it reads it, and
where it asks whether it is there.  A definition holds the name as a word, which the server takes
apart, completes or folds by its own rule (`Driver.resolve`).  The question hands the name over as
an argument, or leaves the database to the connection (`Driver.asked?`).

Made, dropped and read is always one table.  The question is about the same table only if the
database of the table is that of the connection, on ClickHouse, and if the names have no capitals,
on PostgreSQL (`Names.asked_eq_base_iff`). -/
namespace SchemaMigration

/-! ### Names in statements -/

/-- A table as a server knows it. -/
structure TableKey where
  schema : String
  name : String
  deriving DecidableEq, Repr

/-- The name that stands behind some words at the start of a text, and what comes after it. -/
def nameBehind? (named : Char → Bool) (words text : String) : Option (String × String) :=
  (Text.dropStart? words.toList text.toList).map fun rest =>
    (String.ofList (rest.takeWhile named), String.ofList (rest.dropWhile named))

/-- A text that does not go on with a name. -/
def EndsName (named : Char → Bool) (rest : String) : Prop :=
  ∀ c ∈ rest.toList.head?, named c = false

-- Over the characters of the text, and not over all characters there are.
instance (named : Char → Bool) (rest : String) : Decidable (EndsName named rest) :=
  Option.decidableForallMem rest.toList.head?

theorem EndsName.append {named : Char → Bool} {first : String} (hne : first.toList ≠ [])
    (h : EndsName named first) (rest : String) : EndsName named (first ++ rest) := by
  obtain ⟨c, cs, hfirst⟩ := List.exists_cons_of_ne_nil hne
  rw [EndsName, hfirst] at h
  rw [EndsName, String.toList_append, hfirst]
  exact h

/-- A name that ends where the rest begins is found behind the words. -/
theorem nameBehind?_append {named : Char → Bool} {words name rest : String}
    (hname : ∀ c ∈ name.toList, named c = true) (hrest : EndsName named rest) :
    nameBehind? named words (words ++ (name ++ rest)) = some (name, rest) := by
  have hdrop : Text.dropStart? words.toList (words ++ (name ++ rest)).toList =
      some (name.toList ++ rest.toList) := by
    rw [String.toList_append, String.toList_append, Text.dropStart?_append]
  have hspan := Text.span_append hname hrest
  rw [nameBehind?, hdrop, Option.map_some, hspan.1, hspan.2]
  simp only [String.ofList_toList]

/-- Words are not found in a text that starts with other words. -/
theorem nameBehind?_none {named : Char → Bool} {words lead rest : String}
    (hlead : lead.toList.isPrefixOf words.toList = false)
    (hwords : words.toList.isPrefixOf lead.toList = false) :
    nameBehind? named words (lead ++ rest) = none := by
  rw [nameBehind?, String.toList_append, Text.dropStart?_of_apart hlead hwords]
  rfl

namespace Driver

/-- The characters of a name in a statement: those of identifiers, and the point between a schema
and a table. -/
def isNamed (driver : Driver) (c : Char) : Bool :=
  Identifier.isPlain c || (c == '.' && driver != .tarantool)

/-- The name of the table that a statement makes. -/
def made? (driver : Driver) (text : String) : Option String :=
  let words := if driver = .tarantool then "box.schema.space.create('" else "CREATE TABLE "
  (nameBehind? driver.isNamed words text).map (·.1)

/-- The name of the table that a statement drops. -/
def dropped? (driver : Driver) (text : String) : Option String :=
  if driver = .tarantool then
    match nameBehind? driver.isNamed "box.space." text with
    | some (name, ":drop()") => some name
    | _ => none
  else (nameBehind? driver.isNamed "DROP TABLE " text).map (·.1)

/-- The name of the table that a listing reads. -/
def read? (driver : Driver) (text : String) : Option String :=
  let words :=
    if driver = .tarantool then "return box.space." else "SELECT version, apply_time FROM "
  (nameBehind? driver.isNamed words text).map (·.1)

section Sql

variable {driver : Driver} {name rest : String}

theorem made?_sql (hname : ∀ c ∈ name.toList, driver.isNamed c = true) (hsql : driver ≠ .tarantool)
    (hrest : EndsName driver.isNamed rest) :
    driver.made? ("CREATE TABLE " ++ (name ++ rest)) = some name := by
  rw [made?, if_neg hsql, nameBehind?_append hname hrest]
  rfl

theorem dropped?_sql (hname : ∀ c ∈ name.toList, driver.isNamed c = true)
    (hsql : driver ≠ .tarantool) (hrest : EndsName driver.isNamed rest) :
    driver.dropped? ("DROP TABLE " ++ (name ++ rest)) = some name := by
  rw [dropped?, if_neg hsql, nameBehind?_append hname hrest]
  rfl

theorem dropped?_sql_alone (hname : ∀ c ∈ name.toList, driver.isNamed c = true)
    (hsql : driver ≠ .tarantool) :
    driver.dropped? ("DROP TABLE " ++ name) = some name := by
  have hdropped : driver.dropped? ("DROP TABLE " ++ (name ++ "")) = some name :=
    dropped?_sql hname hsql (by simp [EndsName])
  rwa [String.append_empty] at hdropped

theorem read?_sql (hname : ∀ c ∈ name.toList, driver.isNamed c = true) (hsql : driver ≠ .tarantool)
    (hrest : EndsName driver.isNamed rest) :
    driver.read? ("SELECT version, apply_time FROM " ++ (name ++ rest)) = some name := by
  rw [read?, if_neg hsql, nameBehind?_append hname hrest]
  rfl

/-- No statement both makes and drops. -/
theorem dropped?_create (hsql : driver ≠ .tarantool) (rest : String) :
    driver.dropped? ("CREATE TABLE " ++ rest) = none := by
  rw [dropped?, if_neg hsql, nameBehind?_none (by decide) (by decide)]
  rfl

theorem made?_drop (hsql : driver ≠ .tarantool) (rest : String) :
    driver.made? ("DROP TABLE " ++ rest) = none := by
  rw [made?, if_neg hsql, nameBehind?_none (by decide) (by decide)]
  rfl

end Sql

/-- A statement that does something else to a space does not drop it. -/
theorem dropped?_other {name rest : String} (hname : ∀ c ∈ name.toList, tarantool.isNamed c = true)
    (hrest : EndsName tarantool.isNamed rest) (hne : rest ≠ ":drop()") :
    tarantool.dropped? ("box.space." ++ (name ++ rest)) = none := by
  rw [dropped?, if_pos rfl, nameBehind?_append hname hrest]
  split
  · rename_i hsome
    cases hsome
    exact absurd rfl hne
  · rfl

/-- The name of a table without rows of its own that a statement makes, and the table that it
shows. -/
def spanning? (driver : Driver) (text : String) : Option (String × TableKey) := do
  let (name, text) ← nameBehind? driver.isNamed "CREATE TABLE " text
  let (_, text) ← nameBehind? driver.isNamed " ON CLUSTER " text
  let (_, text) ← nameBehind? driver.isNamed " AS " text
  let (_, text) ← nameBehind? driver.isNamed " ENGINE = Distributed('" text
  let (schema, text) ← nameBehind? driver.isNamed "','" text
  let (table, _) ← nameBehind? driver.isNamed "'," text
  return (name, ⟨schema, table⟩)

/-- The database of a connection, in which a server looks for a name without one. -/
def home (driver : Driver) (dsn : Dsn) : String :=
  match driver with
  | .clickHouse => ClickHouse.Settings.orElse dsn.database
      ((dsn.option? "database").getD "default")
  | .postgres => Postgres.standardSchema
  | .mySql => dsn.database
  | .tarantool => ""

/-- What a server makes of a name that stands in a statement without quotes.  PostgreSQL folds
capitals. -/
def fold (driver : Driver) (name : String) : String :=
  if driver = .postgres then Text.lower name else name

/-- The table that a server takes a name in a statement for. -/
def resolve (driver : Driver) (home name : String) : TableKey :=
  let parts := Identifier.splitQualified name
  ⟨driver.fold (parts.1.getD home), driver.fold parts.2⟩

/-- The table that a question is about.  The server compares the names in its catalog with the
arguments as they are. -/
def asked? (driver : Driver) (home : String) (s : Statement) : Option TableKey :=
  match driver, s.args with
  | .clickHouse, [.text table] =>
    if s.text = "SELECT COUNT(*) FROM system.columns WHERE table = ?"
      ++ " AND database = currentDatabase()"
    then some ⟨home, table⟩ else none
  | .postgres, [.text table, .text schema] =>
    if s.text = "SELECT COUNT(*) FROM pg_class c JOIN pg_namespace n ON n.oid = c.relnamespace"
      ++ " WHERE (c.relname, n.nspname) = ($1, $2)"
    then some ⟨schema, table⟩ else none
  | .mySql, [.text table, .text schema] =>
    if s.text = "SELECT EXISTS(SELECT * FROM information_schema.tables"
      ++ " WHERE table_name = ? AND table_schema = ?)"
    then some ⟨schema, table⟩ else none
  | .tarantool, [] =>
    match nameBehind? (isNamed .tarantool) "return box.space." s.text with
    | some (name, " ~= nil") => some ⟨home, name⟩
    | _ => none
  | _, _ => none

end Driver

/-! ### The statements of a dialect -/

namespace Dialect

/-- The tables that a dialect makes and drops, in the order of the statements. -/
def makes (d : Dialect) (home : String) : List TableKey :=
  (d.create.filterMap d.driver.made?).map (d.driver.resolve home)

def drops (d : Dialect) (home : String) : List TableKey :=
  (d.drop.filterMap d.driver.dropped?).map (d.driver.resolve home)

/-- A listing shows the rows of a table: it reads it, or it reads one that a statement of the
dialect makes to show it. -/
def Shows (d : Dialect) (home : String) (limit : Nat) (key : TableKey) : Prop :=
  ∃ name, d.driver.read? (d.list limit) = some name ∧
    (d.driver.resolve home name = key ∨
      ∃ text ∈ d.create, d.driver.spanning? text = some (name, key))

end Dialect

namespace Names

/-- The table that holds the history. -/
def base (driver : Driver) (n : Names) : TableKey := ⟨driver.fold n.schema, driver.fold n.table⟩

/-- The table that the history asks for. -/
def asked (driver : Driver) (home : String) (n : Names) : TableKey :=
  if driver = .clickHouse then ⟨home, n.table⟩ else ⟨n.schema, n.table⟩

/-- Whether a history that is spread over a cluster has a second table. -/
def spread (driver : Driver) (n : Names) (replicated : Bool) : Bool :=
  driver = .clickHouse && !replicated && !n.cluster.isEmpty

/-- The tables that a history needs. -/
def tables (driver : Driver) (n : Names) (replicated : Bool) : List TableKey :=
  n.base driver :: if n.spread driver replicated then [⟨n.schema, "d_" ++ n.table⟩] else []

end Names

/-- What all names are made of. -/
def Plain (s : String) : Prop := ∀ c ∈ s.toList, Identifier.isPlain c = true

instance (s : String) : Decidable (Plain s) := List.decidableBAll _ s.toList

namespace Plain

variable {s t : String}

theorem ne_point (h : Plain s) : '.' ∉ s.toList := fun hmem => absurd (h '.' hmem) (by decide)

theorem named (h : Plain s) (driver : Driver) : ∀ c ∈ s.toList, driver.isNamed c = true :=
  fun c hc => by rw [Driver.isNamed, h c hc, Bool.true_or]

theorem append (hs : Plain s) (ht : Plain t) : Plain (s ++ t) := by
  intro c hc
  rw [String.toList_append, List.mem_append] at hc
  exact hc.elim (hs c) (ht c)

/-- A qualified name is a name in the statements of SQL. -/
theorem qualified (hs : Plain s) (ht : Plain t) {driver : Driver} (hsql : driver ≠ .tarantool) :
    ∀ c ∈ (s ++ "." ++ t).toList, driver.isNamed c = true := by
  intro c hc
  simp only [String.toList_append, List.mem_append] at hc
  rcases hc with (hc | hc) | hc
  · exact hs.named driver c hc
  · have hpoint : c = '.' := by simpa using hc
    simp [Driver.isNamed, hpoint, hsql]
  · exact ht.named driver c hc

theorem split_qualified (hs : Plain s) (t : String) :
    Identifier.splitQualified (s ++ "." ++ t) = (some s, t) := by
  have hcut : Text.cutFirst '.' (s ++ "." ++ t).toList = some (s.toList, t.toList) := by
    rw [String.toList_append, String.toList_append, List.append_assoc]
    exact Text.cutFirst_append fun c hc heq => hs.ne_point (heq ▸ hc)
  rw [Identifier.splitQualified, hcut]
  simp only [String.ofList_toList]

theorem split_bare (hs : Plain s) : Identifier.splitQualified s = (none, s) := by
  rcases Text.cutFirst_cases '.' s.toList with ⟨hcut, -⟩ | ⟨before, after, -, hparts, -⟩
  · rw [Identifier.splitQualified, hcut]
  · exact absurd (by rw [hparts]; simp) hs.ne_point

end Plain

/-! ### One table in all statements -/

namespace ClickHouse.HistoryTable

variable {t : HistoryTable}

/-- The name of a history table as it stands in its statements. -/
structure Plain (t : HistoryTable) : Prop where
  database : SchemaMigration.Plain t.database
  table : SchemaMigration.Plain t.table
  cluster : SchemaMigration.Plain t.cluster

theorem Plain.base_named (h : t.Plain) : ∀ c ∈ t.base.toList, Driver.clickHouse.isNamed c = true :=
  h.database.qualified h.table (by decide)

theorem spanning_eq (t : HistoryTable) : t.spanning = t.database ++ "." ++ ("d_" ++ t.table) := by
  simp only [spanning, String.append_assoc]
  rfl

theorem Plain.spanning_named (h : t.Plain) :
    ∀ c ∈ t.spanning.toList, Driver.clickHouse.isNamed c = true := by
  rw [spanning_eq]
  exact h.database.qualified (.append (by decide) h.table) (by decide)

theorem made?_create (h : t.Plain) :
    t.create.filterMap Driver.clickHouse.made? =
      t.base :: if t.isSpread then [t.spanning] else [] := by
  cases hspread : t.isSpread with
  | false =>
    simp (disch := first | decide | exact .append (by decide) (by decide) _) only
      [create, onCluster, hspread, String.append_assoc, String.empty_append, Bool.false_eq_true,
        if_false, List.filterMap_cons, Driver.made?_sql h.base_named, List.filterMap_nil]
  | true =>
    simp (disch := first | decide | exact .append (by decide) (by decide) _) only
      [create, onCluster, hspread, String.append_assoc, if_true, List.filterMap_cons,
        Driver.made?_sql h.base_named, Driver.made?_sql h.spanning_named, List.filterMap_nil]

theorem dropped?_drop (h : t.Plain) :
    t.drop.filterMap Driver.clickHouse.dropped? =
      (t.base :: if t.isSpread then [t.spanning] else []).reverse := by
  cases hspread : t.isSpread with
  | false =>
    simp (disch := first | decide | exact .append (by decide) (by decide) _) only
      [drop, hspread, Bool.false_eq_true, if_false, List.filterMap_cons,
        Driver.dropped?_sql_alone h.base_named, List.filterMap_nil, List.reverse_singleton]
  | true =>
    simp (disch := first | decide | exact .append (by decide) (by decide) _) only
      [drop, onCluster, hspread, String.append_assoc, if_true, List.filterMap_cons,
      Driver.dropped?_sql h.base_named, Driver.dropped?_sql h.spanning_named,
      List.filterMap_nil, List.reverse_cons, List.reverse_nil, List.nil_append,
      List.singleton_append]

theorem read?_list (h : t.Plain) (limit : Nat) :
    Driver.clickHouse.read? (t.dialect.list limit) = some t.readFrom := by
  have hname : ∀ c ∈ t.readFrom.toList, Driver.clickHouse.isNamed c = true := by
    unfold readFrom
    split
    · exact h.spanning_named
    · exact h.base_named
  simp (disch := first | decide | exact .append (by decide) (by decide) _) only
    [dialect, String.append_assoc, Driver.read?_sql hname]

/-- The table that spans the cluster shows the one that holds the rows. -/
theorem spanning?_create (h : t.Plain) (hspread : t.isSpread = true) :
    ∃ text ∈ t.create,
      Driver.clickHouse.spanning? text = some (t.spanning, ⟨t.database, t.table⟩) := by
  refine ⟨_, by rw [create, hspread, if_pos rfl]; exact .tail _ (.head _), ?_⟩
  have hcluster := h.cluster.named .clickHouse
  have hdatabase := h.database.named .clickHouse
  have htable := h.table.named .clickHouse
  simp (disch := first | decide | exact .append (by decide) (by decide) _) only
    [onCluster, hspread, if_true, String.append_assoc, Driver.spanning?,
      nameBehind?_append h.spanning_named, nameBehind?_append hcluster,
      nameBehind?_append h.base_named, nameBehind?_append hdatabase, nameBehind?_append htable,
      Option.bind_eq_bind, Option.bind_some]
  rfl

end ClickHouse.HistoryTable

namespace Postgres.HistoryTable

variable {t : HistoryTable}

theorem qualified_named (hs : Plain t.schema) (ht : Plain t.table) :
    ∀ c ∈ t.qualified.toList, Driver.postgres.isNamed c = true := hs.qualified ht (by decide)

theorem made?_create (h : ∀ c ∈ t.qualified.toList, Driver.postgres.isNamed c = true) :
    t.dialect.create.filterMap Driver.postgres.made? = [t.qualified] := by
  simp (disch := decide) only [dialect, String.append_assoc, List.filterMap_cons,
    Driver.made?_sql h, List.filterMap_nil]

theorem dropped?_drop (h : ∀ c ∈ t.qualified.toList, Driver.postgres.isNamed c = true) :
    t.dialect.drop.filterMap Driver.postgres.dropped? = [t.qualified] := by
  simp (disch := decide) only [dialect, List.filterMap_cons, Driver.dropped?_sql_alone h,
    List.filterMap_nil]

theorem read?_list (h : ∀ c ∈ t.qualified.toList, Driver.postgres.isNamed c = true) (limit : Nat) :
    Driver.postgres.read? (t.dialect.list limit) = some t.qualified := by
  simp (disch := first | decide | exact .append (by decide) (by decide) _) only [dialect,
    String.append_assoc, Driver.read?_sql h]

end Postgres.HistoryTable

namespace MySql.HistoryTable

variable {t : HistoryTable}

theorem made?_create (h : Plain t.table) :
    t.dialect.create.filterMap Driver.mySql.made? = [t.table] := by
  simp (disch := decide) only [dialect, String.append_assoc, List.filterMap_cons,
    Driver.made?_sql (h.named .mySql), List.filterMap_nil]

theorem dropped?_drop (h : Plain t.table) :
    t.dialect.drop.filterMap Driver.mySql.dropped? = [t.table] := by
  simp (disch := decide) only [dialect, List.filterMap_cons,
    Driver.dropped?_sql_alone (h.named .mySql), List.filterMap_nil]

theorem read?_list (h : Plain t.table) (limit : Nat) :
    Driver.mySql.read? (t.dialect.list limit) = some t.table := by
  simp (disch := first | decide | exact .append (by decide) (by decide) _) only [dialect,
    String.append_assoc, Driver.read?_sql (h.named .mySql)]

end MySql.HistoryTable

namespace Tarantool.HistorySpace

variable {s : HistorySpace}

/-- Of the statements that make a space, only the first makes one. -/
theorem made?_create (h : Plain s.name) :
    s.create.filterMap Driver.tarantool.made? = [s.name] := by
  have hmade : nameBehind? Driver.tarantool.isNamed "box.schema.space.create('"
      ("box.schema.space.create('" ++ (s.name ++ "', \x7bif_not_exists=true\x7d)")) =
        some (s.name, "', \x7bif_not_exists=true\x7d)") :=
    nameBehind?_append (h.named .tarantool) (by decide)
  have hother (rest : String) : nameBehind? Driver.tarantool.isNamed "box.schema.space.create('"
      ("box.space." ++ rest) = none := nameBehind?_none (by decide) (by decide)
  simp only [create, String.append_assoc, List.filterMap_cons, Driver.made?, if_true, hmade, hother,
    Option.map_some, Option.map_none, List.filterMap_nil]

theorem dropped?_drop (h : Plain s.name) :
    s.dialect.drop.filterMap Driver.tarantool.dropped? = [s.name] := by
  have hdropped : nameBehind? Driver.tarantool.isNamed "box.space."
      ("box.space." ++ (s.name ++ ":drop()")) = some (s.name, ":drop()") :=
    nameBehind?_append (h.named .tarantool) (by decide)
  simp only [dialect, String.append_assoc, List.filterMap_cons, Driver.dropped?, if_true, hdropped,
    List.filterMap_nil]

theorem read?_list (h : Plain s.name) (limit : Nat) :
    Driver.tarantool.read? (s.dialect.list limit) = some s.name := by
  simp (disch := first | decide | exact .append (by decide) (by decide) _) only [dialect,
    String.append_assoc, Driver.read?, if_true, nameBehind?_append (h.named .tarantool),
    Option.map_some]

end Tarantool.HistorySpace

namespace Driver

theorem resolve_qualified {s : String} (hs : Plain s) (driver : Driver) (home t : String) :
    driver.resolve home (s ++ "." ++ t) = ⟨driver.fold s, driver.fold t⟩ := by
  rw [resolve, hs.split_qualified]
  rfl

theorem resolve_bare {s : String} (hs : Plain s) (driver : Driver) (home : String) :
    driver.resolve home s = ⟨driver.fold home, driver.fold s⟩ := by
  rw [resolve, hs.split_bare]
  rfl

end Driver

namespace Names

/-- All names are plain, and where a statement leaves the schema out, it is that of the
connection. -/
structure Fit (driver : Driver) (home : String) (n : Names) : Prop where
  schema : Plain n.schema
  table : Plain n.table
  cluster : Plain n.cluster
  bare : driver = .mySql ∨ driver = .tarantool → home = n.schema

variable {driver : Driver} {home : String} {n : Names}

theorem Fit.clickHouse (h : n.Fit driver home) (replicated : Bool) :
    (⟨n.schema, n.table, n.cluster, replicated⟩ : ClickHouse.HistoryTable).Plain :=
  ⟨h.schema, h.table, h.cluster⟩

/-- The name of the table as it stands in the statements. -/
def word (driver : Driver) (n : Names) : String :=
  match driver with
  | .clickHouse | .postgres => n.schema ++ "." ++ n.table
  | .mySql | .tarantool => n.table

/-- The names in the statements that make the tables. -/
def words (driver : Driver) (n : Names) (replicated : Bool) : List String :=
  n.word driver :: if n.spread driver replicated then [n.schema ++ "." ++ ("d_" ++ n.table)] else []

theorem Fit.resolve_word (h : n.Fit driver home) :
    driver.resolve home (n.word driver) = n.base driver := by
  cases driver with
  | clickHouse | postgres => exact Driver.resolve_qualified h.schema _ _ _
  | mySql => rw [word, Driver.resolve_bare h.table, h.bare (.inl rfl), base]
  | tarantool => rw [word, Driver.resolve_bare h.table, h.bare (.inr rfl), base]

theorem clickHouse_of_spread {replicated : Bool} (h : n.spread driver replicated = true) :
    driver = .clickHouse := by
  simp only [spread, Bool.and_eq_true, decide_eq_true_eq] at h
  exact h.1.1

theorem Fit.resolve_words (h : n.Fit driver home) (replicated : Bool) :
    (n.words driver replicated).map (driver.resolve home) = n.tables driver replicated := by
  rw [words, tables, List.map_cons, h.resolve_word]
  cases hspread : n.spread driver replicated with
  | false => rfl
  | true =>
    obtain rfl := clickHouse_of_spread hspread
    rw [if_pos rfl, if_pos rfl, List.map_singleton, Driver.resolve_qualified h.schema]
    rfl

theorem spread_of_ne (hdriver : driver ≠ .clickHouse) (n : Names) (replicated : Bool) :
    n.spread driver replicated = false := by
  simp [spread, hdriver]

theorem words_of_ne (hdriver : driver ≠ .clickHouse) (n : Names) (replicated : Bool) :
    n.words driver replicated = [n.word driver] := by
  rw [words, spread_of_ne hdriver]
  rfl

theorem words_clickHouse (n : Names) (replicated : Bool) :
    let t : ClickHouse.HistoryTable := ⟨n.schema, n.table, n.cluster, replicated⟩
    (t.base :: if t.isSpread then [t.spanning] else []) = n.words .clickHouse replicated := by
  simp only [ClickHouse.HistoryTable.spanning_eq]
  rfl

theorem Fit.made_words (h : n.Fit driver home) (replicated : Bool) :
    (Dialect.named driver n replicated).create.filterMap driver.made? =
      n.words driver replicated := by
  cases driver with
  | clickHouse =>
    rw [← words_clickHouse]
    exact ClickHouse.HistoryTable.made?_create (h.clickHouse replicated)
  | postgres =>
    rw [words_of_ne (by decide)]
    exact Postgres.HistoryTable.made?_create
      (Postgres.HistoryTable.qualified_named h.schema h.table)
  | mySql =>
    rw [words_of_ne (by decide)]
    exact MySql.HistoryTable.made?_create h.table
  | tarantool =>
    rw [words_of_ne (by decide)]
    exact Tarantool.HistorySpace.made?_create h.table

theorem Fit.dropped_words (h : n.Fit driver home) (replicated : Bool) :
    (Dialect.named driver n replicated).drop.filterMap driver.dropped? =
      (n.words driver replicated).reverse := by
  cases driver with
  | clickHouse =>
    rw [← words_clickHouse]
    exact ClickHouse.HistoryTable.dropped?_drop (h.clickHouse replicated)
  | postgres =>
    rw [words_of_ne (by decide)]
    exact Postgres.HistoryTable.dropped?_drop
      (Postgres.HistoryTable.qualified_named h.schema h.table)
  | mySql =>
    rw [words_of_ne (by decide)]
    exact MySql.HistoryTable.dropped?_drop h.table
  | tarantool =>
    rw [words_of_ne (by decide)]
    exact Tarantool.HistorySpace.dropped?_drop h.table

theorem named_driver (driver : Driver) (n : Names) (replicated : Bool) :
    (Dialect.named driver n replicated).driver = driver := by
  cases driver <;> rfl

/-- A history makes its tables, and drops them in the opposite order. -/
theorem Fit.makes (h : n.Fit driver home) (replicated : Bool) :
    (Dialect.named driver n replicated).makes home = n.tables driver replicated := by
  rw [Dialect.makes, named_driver, h.made_words, h.resolve_words]

theorem Fit.drops (h : n.Fit driver home) (replicated : Bool) :
    (Dialect.named driver n replicated).drops home = (n.tables driver replicated).reverse := by
  rw [Dialect.drops, named_driver, h.dropped_words, List.map_reverse, h.resolve_words]

/-- A listing shows the table that holds the history. -/
theorem Fit.shows (h : n.Fit driver home) (replicated : Bool) (limit : Nat) :
    (Dialect.named driver n replicated).Shows home limit (n.base driver) := by
  cases driver with
  | clickHouse =>
    have ht := h.clickHouse replicated
    refine ⟨_, ClickHouse.HistoryTable.read?_list ht limit, ?_⟩
    rw [ClickHouse.HistoryTable.readFrom]
    split
    · rename_i hspread
      exact .inr (ClickHouse.HistoryTable.spanning?_create ht hspread)
    · exact .inl h.resolve_word
  | postgres =>
    exact ⟨_, Postgres.HistoryTable.read?_list
      (Postgres.HistoryTable.qualified_named h.schema h.table) limit, .inl h.resolve_word⟩
  | mySql => exact ⟨_, MySql.HistoryTable.read?_list h.table limit, .inl h.resolve_word⟩
  | tarantool => exact ⟨_, Tarantool.HistorySpace.read?_list h.table limit, .inl h.resolve_word⟩

/-- The history asks for a table. -/
theorem Fit.asks (h : n.Fit driver home) (replicated : Bool) :
    driver.asked? home (Dialect.named driver n replicated).probe = some (n.asked driver home) := by
  cases driver with
  | clickHouse => rfl
  | postgres => rfl
  | mySql => rfl
  | tarantool =>
    have hbehind : nameBehind? (Driver.isNamed .tarantool) "return box.space."
        ("return box.space." ++ (n.table ++ " ~= nil")) = some (n.table, " ~= nil") :=
      nameBehind?_append (h.table.named .tarantool) (by decide)
    simp only [Driver.asked?, Dialect.named, Tarantool.HistorySpace.dialect, String.append_assoc,
      hbehind, h.bare (.inr rfl), asked, reduceCtorEq, if_false]

/-- The statements that make the tables drop none. -/
theorem Fit.create_drops_nothing (h : n.Fit driver home) (replicated : Bool) :
    ∀ text ∈ (Dialect.named driver n replicated).create, driver.dropped? text = none := by
  intro text htext
  cases driver with
  | clickHouse =>
    simp only [Dialect.named, ClickHouse.HistoryTable.dialect, ClickHouse.HistoryTable.create,
      String.append_assoc, List.mem_cons] at htext
    rcases htext with rfl | htext
    · exact Driver.dropped?_create (by decide) _
    · split at htext
      · rw [List.mem_singleton.mp htext]
        exact Driver.dropped?_create (by decide) _
      · cases htext
  | postgres =>
    simp only [Dialect.named, Postgres.HistoryTable.dialect, String.append_assoc,
      List.mem_singleton] at htext
    exact htext ▸ Driver.dropped?_create (by decide) _
  | mySql =>
    simp only [Dialect.named, MySql.HistoryTable.dialect, String.append_assoc,
      List.mem_singleton] at htext
    exact htext ▸ Driver.dropped?_create (by decide) _
  | tarantool =>
    have hname := h.table.named .tarantool
    simp only [Dialect.named, Tarantool.HistorySpace.dialect, Tarantool.HistorySpace.create,
      String.append_assoc, List.mem_cons, List.not_mem_nil, or_false] at htext
    rcases htext with rfl | rfl | rfl | rfl
    · rw [Driver.dropped?, if_pos rfl, nameBehind?_none (by decide) (by decide)]
    · exact Driver.dropped?_other hname (.append (by decide) (by decide) _) (by decide)
    · exact Driver.dropped?_other hname (.append (by decide) (by decide) _) (by decide)
    · exact Driver.dropped?_other hname (.append (by decide) (by decide) _) (by decide)

/-- The statements that drop the tables make none. -/
theorem drop_makes_nothing (driver : Driver) (n : Names) (replicated : Bool) :
    ∀ text ∈ (Dialect.named driver n replicated).drop, driver.made? text = none := by
  intro text htext
  cases driver with
  | clickHouse =>
    simp only [Dialect.named, ClickHouse.HistoryTable.dialect, ClickHouse.HistoryTable.drop,
      String.append_assoc] at htext
    split at htext
    · rcases List.mem_cons.mp htext with rfl | htext
      · exact Driver.made?_drop (by decide) _
      · exact List.mem_singleton.mp htext ▸ Driver.made?_drop (by decide) _
    · exact List.mem_singleton.mp htext ▸ Driver.made?_drop (by decide) _
  | postgres => exact List.mem_singleton.mp htext ▸ Driver.made?_drop (by decide) _
  | mySql => exact List.mem_singleton.mp htext ▸ Driver.made?_drop (by decide) _
  | tarantool =>
    simp only [Dialect.named, Tarantool.HistorySpace.dialect, String.append_assoc,
      List.mem_singleton] at htext
    rw [htext, Driver.made?, if_pos rfl, nameBehind?_none (by decide) (by decide)]
    rfl

/-- What has to hold of the names so that the history finds the table that it made. -/
def Found (driver : Driver) (home : String) (n : Names) : Prop :=
  match driver with
  | .clickHouse => n.schema = home
  | .postgres => (∀ c ∈ n.schema.toList, ¬ c.isUpper) ∧ ∀ c ∈ n.table.toList, ¬ c.isUpper
  | .mySql | .tarantool => True

theorem toLower_eq_self_iff (c : Char) : c.toLower = c ↔ ¬ c.isUpper := by
  unfold Char.toLower Char.isUpper
  rw [decide_eq_true_iff]
  split
  · rename_i h
    refine ⟨fun heq => ?_, fun hnot => absurd h hnot⟩
    have hsum := congrArg (fun d : Char => d.val.toNat) heq
    have hstep : ('a'.val - 'A'.val).toNat = 32 := by decide
    have hhigh : c.val.toNat ≤ 90 := h.2
    simp only [UInt32.toNat_add, hstep] at hsum
    omega
  · rename_i h
    exact ⟨fun _ => h, fun _ => rfl⟩

theorem lower_eq_self_iff (s : String) : Text.lower s = s ↔ ∀ c ∈ s.toList, ¬ c.isUpper := by
  have hmap : s.toList.map Char.toLower = s.toList ↔ ∀ c ∈ s.toList, c.toLower = c := by
    simpa using List.map_inj_left (f := Char.toLower) (g := id)
  rw [Text.lower, ← String.toList_inj, String.toList_ofList, hmap]
  exact forall₂_congr fun c _ => toLower_eq_self_iff c

theorem asked_eq_base_iff (driver : Driver) (home : String) (n : Names) :
    n.asked driver home = n.base driver ↔ n.Found driver home := by
  cases driver with
  | clickHouse => simp [asked, base, Driver.fold, Found, eq_comm]
  | postgres =>
    simp only [asked, base, Driver.fold, Found, reduceCtorEq, if_false, if_true, TableKey.mk.injEq,
      ← lower_eq_self_iff]
    exact and_congr eq_comm eq_comm
  | mySql | tarantool => simp [asked, base, Driver.fold, Found]

/-- The table that shows the other one is never the one that is asked for. -/
theorem asked_mem_tables_iff (driver : Driver) (home : String) (n : Names) (replicated : Bool) :
    n.asked driver home ∈ n.tables driver replicated ↔ n.Found driver home := by
  rw [tables, List.mem_cons, asked_eq_base_iff, or_iff_left]
  intro hmem
  split at hmem
  · rename_i hspread
    rw [List.mem_singleton, asked, if_pos (clickHouse_of_spread hspread)] at hmem
    have hlength := congrArg (fun key : TableKey => key.name.length) hmem
    simp only [String.length_append] at hlength
    have hprefix : "d_".length = 2 := by decide
    omega
  · cases hmem

end Names

/-! ### A server with a catalog -/

variable {σ : Type}

/-- What a statement makes of the tables of a server. -/
def Driver.after (driver : Driver) (home text : String) (tables : Set TableKey) : Set TableKey :=
  match driver.made? text, driver.dropped? text with
  | some name, _ => insert (driver.resolve home name) tables
  | none, some name => tables \ {driver.resolve home name}
  | none, none => tables

section After

variable {driver : Driver} {home : String} {texts : List String}

theorem Driver.foldl_makes (h : ∀ text ∈ texts, driver.dropped? text = none) (now : Set TableKey) :
    texts.foldl (fun now text => driver.after home text now) now =
      now ∪ {key | key ∈ (texts.filterMap driver.made?).map (driver.resolve home)} := by
  induction texts generalizing now with
  | nil => simp
  | cons text texts ih =>
    rw [List.foldl_cons, ih fun text htext => h text (List.mem_cons_of_mem _ htext), after,
      h text List.mem_cons_self, List.filterMap_cons]
    cases driver.made? text with
    | none => rfl
    | some name =>
      ext key
      simp [or_assoc, or_left_comm]

theorem Driver.foldl_drops (h : ∀ text ∈ texts, driver.made? text = none) (now : Set TableKey) :
    texts.foldl (fun now text => driver.after home text now) now =
      now \ {key | key ∈ (texts.filterMap driver.dropped?).map (driver.resolve home)} := by
  induction texts generalizing now with
  | nil =>
    ext key
    simp
  | cons text texts ih =>
    rw [List.foldl_cons, ih fun text htext => h text (List.mem_cons_of_mem _ htext), after,
      h text List.mem_cons_self, List.filterMap_cons]
    cases driver.dropped? text with
    | none => rfl
    | some name =>
      ext key
      simp [and_assoc]

end After

/-- What the statements of a history make of the tables of a server. -/
theorem Names.Fit.after_create {driver : Driver} {home : String} {n : Names}
    (h : n.Fit driver home) (replicated : Bool) (now : Set TableKey) :
    (Dialect.named driver n replicated).create.foldl (fun now text => driver.after home text now)
      now = now ∪ {key | key ∈ n.tables driver replicated} := by
  rw [Driver.foldl_makes (h.create_drops_nothing replicated), h.made_words, h.resolve_words]

theorem Names.Fit.after_drop {driver : Driver} {home : String} {n : Names}
    (h : n.Fit driver home) (replicated : Bool) (now : Set TableKey) :
    (Dialect.named driver n replicated).drop.foldl (fun now text => driver.after home text now)
      now = now \ {key | key ∈ n.tables driver replicated} := by
  rw [Driver.foldl_drops (Names.drop_makes_nothing driver n replicated), h.dropped_words,
    List.map_reverse, h.resolve_words]
  simp only [List.mem_reverse]

/-- A server that has just the tables that were made and not dropped, and tells the truth when a
history asks for one. -/
structure Backend.Catalogs (b : Backend σ) (d : Dialect) (home : String)
    (tables : σ → Set TableKey) : Prop where
  exec : ∀ token text args s, (b.exec token text args).Ends s fun r t =>
    ∀ out, r = .ok out → tables t = d.driver.after home text (tables s)
  query : ∀ token text args s, (b.query token text args).Ends s fun r t => tables t = tables s ∧
    ∀ rows key, r = .ok rows → d.driver.asked? home ⟨text, args⟩ = some key →
      ∃ yes, (rows.scalar >>= d.probeVerdict.read) = .ok yes ∧ (yes = true ↔ key ∈ tables s)

namespace Dialect

variable {d : Dialect} {home : String} {tables : σ → Set TableKey} {c : Connection σ}
variable {ctx : Context σ}

theorem exec_catalogs (hb : c.backend.Catalogs d home tables) (hctx : ctx.transaction = none)
    (text : String) (s : σ) : (d.exec c ctx ⟨text, []⟩).Ends s fun r t =>
      ∀ u, r = .ok u → tables t = d.driver.after home text (tables s) := by
  have hexec : (c.exec ctx text []).Ends s fun r t =>
      ∀ out, r = .ok out → tables t = d.driver.after home text (tables s) := by
    unfold Action.Ends
    rw [Connection.perform_exec, hctx]
    split
    · exact nofun
    · exact hb.exec ctx.token text [] s
  refine Action.Ends.mapFailure ?_
  exact .bind hexec (fun e t _ => nofun) fun out t ht _ _ => ht out rfl

theorem execAll_catalogs (hb : c.backend.Catalogs d home tables) (hctx : ctx.transaction = none)
    (texts : List String) (s : σ) : (d.execAll c ctx texts).Ends s fun r t =>
      ∀ u, r = .ok u →
        tables t = texts.foldl (fun now text => d.driver.after home text now) (tables s) := by
  induction texts generalizing s with
  | nil => exact fun _ _ => rfl
  | cons text texts ih =>
    refine .bind (exec_catalogs hb hctx text s) (fun e t _ => nofun) fun _ t ht => ?_
    refine (ih t).mono fun r u hu out hr => ?_
    rw [hu out hr, ht _ rfl]
    rfl

/-- What the server says when it is asked for the table. -/
theorem query_catalogs (hb : c.backend.Catalogs d home tables) (hctx : ctx.transaction = none)
    {key : TableKey} (hkey : d.driver.asked? home d.probe = some key) {s t : σ} {rows : Rows}
    (hquery : (c.query ctx d.probe.text d.probe.args).perform s = (.ok rows, t)) :
    ∃ v yes, rows.scalar = .ok v ∧ d.probeVerdict.read v = .ok yes ∧
      (yes = true ↔ key ∈ tables s) := by
  rw [Connection.perform_query, hctx] at hquery
  split at hquery
  · cases hquery
  · have hends := hb.query ctx.token d.probe.text d.probe.args s
    unfold Action.Ends at hends
    rw [hquery] at hends
    obtain ⟨yes, hread, hyes⟩ := hends.2 rows key rfl hkey
    cases hscalar : rows.scalar with
    | error e =>
      rw [hscalar] at hread
      cases hread
    | ok v =>
      rw [hscalar] at hread
      exact ⟨v, yes, rfl, hread, hyes⟩

/-- The answer to the question is right, and it is given if the server answers. -/
theorem ask_catalogs (clock : Action σ Int) (hb : c.backend.Catalogs d home tables)
    (hctx : ctx.transaction = none) {key : TableKey}
    (hkey : d.driver.asked? home d.probe = some key) (s : σ) :
    ((d.history c clock).isCreated ctx).Ends s fun r t =>
      (∀ yes, r = .ok yes → (yes = true ↔ key ∈ tables s)) ∧
        ∀ rows, (c.query ctx d.probe.text d.probe.args).perform s = (.ok rows, t) →
          ∃ yes, r = .ok yes := by
  have hscalar : (d.scalar c ctx d.probe).perform s =
      (((c.query ctx d.probe.text d.probe.args >>= fun rows =>
        Action.ofExcept rows.scalar).perform s).1.mapError (d.report d.probe.text),
      ((c.query ctx d.probe.text d.probe.args >>= fun rows =>
        Action.ofExcept rows.scalar).perform s).2) := rfl
  show (d.ask c ctx d.probe d.probeVerdict).Ends s _
  unfold Action.Ends ask
  rcases hquery : (c.query ctx d.probe.text d.probe.args).perform s with ⟨e | rows, t⟩
  · rw [Action.perform_bind_error hquery] at hscalar
    rw [Action.perform_bind_error hscalar]
    exact ⟨nofun, fun rows hrows => by cases hrows⟩
  · obtain ⟨v, yes, hv, hread, hyes⟩ := query_catalogs hb hctx hkey hquery
    rw [Action.perform_bind_ok hquery, hv] at hscalar
    rw [Action.perform_bind_ok hscalar, hread]
    exact ⟨fun answer h => Except.ok.inj h ▸ hyes, fun _ _ => ⟨yes, rfl⟩⟩

end Dialect

/-! ### What is found -/

theorem Names.fit_of_choose {driver : Driver} {dsn : Dsn} {o : Dialect.Options} {d : Dialect}
    (h : Dialect.choose driver dsn o = .ok d) :
    (Names.of driver dsn o).Fit driver (driver.home dsn) := by
  obtain ⟨hall, -⟩ := Dialect.choose_ok h
  refine ⟨(hall _ (by simp [Names.all])).1, (hall _ (by simp [Names.all])).1,
    (hall _ (by simp [Names.all])).1, ?_⟩
  rintro (rfl | rfl) <;> rfl

/-- **A history finds the table that it has made, except where its names mean another one.**  For
every data source name and all options that are accepted, the statements that make and drop name the
same tables, the listing shows the one that holds the history, and the question is about one table.
The question is about the table that holds the history just if the names are found: on ClickHouse
if the database is that of the connection, on PostgreSQL if there are no capitals, on the others
always.  On a server with a catalog the answer is then yes after the table was made and no after it
was dropped; and otherwise making and dropping do not change the answer. -/
theorem made_table_found_iff {driver : Driver} {dsn : Dsn} {o : Dialect.Options} {d : Dialect}
    (h : Dialect.choose driver dsn o = .ok d) :
    let home := driver.home dsn
    let n := Names.of driver dsn o
    d.makes home = n.tables driver o.replicated ∧
    d.drops home = (n.tables driver o.replicated).reverse ∧
    (∀ limit, d.Shows home limit (n.base driver)) ∧
    driver.asked? home d.probe = some (n.asked driver home) ∧
    (n.asked driver home = n.base driver ↔ n.Found driver home) ∧
    ∀ {σ : Type} (c : Connection σ) (clock : Action σ Int) (tables : σ → Set TableKey)
      (ctx : Context σ), c.backend.Catalogs d home tables → ctx.transaction = none →
      let history := d.history c clock
      (∀ s, (history.isCreated ctx).Ends s fun r t =>
        (∀ yes, r = .ok yes → (yes = true ↔ n.asked driver home ∈ tables s)) ∧
          ∀ rows, (c.query ctx d.probe.text d.probe.args).perform s = (.ok rows, t) →
            ∃ yes, r = .ok yes) ∧
      (∀ s, (history.create ctx).Ends s fun r t => r = .ok () →
        (history.isCreated ctx).Ends t fun r _ => ∀ yes, r = .ok yes →
          (yes = true ↔ n.Found driver home ∨ n.asked driver home ∈ tables s)) ∧
      ∀ s, (history.drop ctx).Ends s fun r t => r = .ok () →
        (history.isCreated ctx).Ends t fun r _ => ∀ yes, r = .ok yes →
          (yes = true ↔ ¬ n.Found driver home ∧ n.asked driver home ∈ tables s) := by
  intro home n
  have hfit : n.Fit driver home := Names.fit_of_choose h
  obtain ⟨-, rfl⟩ := Dialect.choose_ok h
  refine ⟨hfit.makes _, hfit.drops _, hfit.shows _, hfit.asks _, n.asked_eq_base_iff .., ?_⟩
  intro σ c clock tables ctx hb hctx history
  have hdriver := Names.named_driver driver n o.replicated
  have hasks : (Dialect.named driver n o.replicated).driver.asked? home
      (Dialect.named driver n o.replicated).probe = some (n.asked driver home) := by
    rw [hdriver]
    exact hfit.asks _
  have hanswer (s : σ) := Dialect.ask_catalogs clock hb hctx hasks s
  refine ⟨hanswer, fun s => ?_, fun s => ?_⟩
  · refine (Dialect.execAll_catalogs hb hctx _ s).mono fun r t ht hr => ?_
    refine (hanswer t).mono fun answer u hu yes hyes => ?_
    have htables := ht () hr
    rw [hdriver, hfit.after_create] at htables
    rw [hu.1 yes hyes, htables, Set.mem_union, Set.mem_ofPred_eq, n.asked_mem_tables_iff, or_comm]
  · refine (Dialect.execAll_catalogs hb hctx _ s).mono fun r t ht hr => ?_
    refine (hanswer t).mono fun answer u hu yes hyes => ?_
    have htables := ht () hr
    rw [hdriver, hfit.after_drop] at htables
    rw [hu.1 yes hyes, htables, Set.mem_sdiff, Set.mem_ofPred_eq, n.asked_mem_tables_iff, and_comm]

/-- How a server says yes or no to the question. -/
def Driver.reply (driver : Driver) (yes : Bool) : Value :=
  match driver with
  | .clickHouse => .uint (if yes then 1 else 0)
  | .postgres => .int (if yes then 1 else 0)
  | .mySql | .tarantool => .bool yes

/-- A server that is nothing but its catalog. -/
def catalogBackend (driver : Driver) (home : String) : Backend (List TableKey × Bool) where
  driver := driver
  ping _ := pure ()
  query _ text args := .ofStep fun s =>
    match driver.asked? home ⟨text, args⟩ with
    | some key => (.ok (.ofRows ["u"] [[driver.reply (s.1.contains key)]]), s)
    | none => (.ok .empty, s)
  exec _ text _ := .ofStep fun s =>
    match driver.made? text, driver.dropped? text with
    | some name, _ => (.ok .unsupported, driver.resolve home name :: s.1, s.2)
    | none, some name =>
      (.ok .unsupported, s.1.filter fun key => key != driver.resolve home name, s.2)
    | none, none => (.ok .unsupported, s)
  begin _ := pure 0
  transaction _ _ := ⟨fun _ _ _ => pure .empty, fun _ _ _ => pure .unsupported, pure (), pure ()⟩
  close := pure ()

theorem catalogBackend_catalogs (driver : Driver) (home : String) (n : Names) (replicated : Bool) :
    (catalogBackend driver home).Catalogs (Dialect.named driver n replicated) home
      fun s => {key | key ∈ s.1} := by
  constructor
  · intro token text args s out hout
    rw [Names.named_driver]
    show {key | key ∈ ((catalogBackend driver home).exec token text args |>.perform s).2.1} = _
    simp only [catalogBackend, Action.perform_ofStep, Driver.after]
    split
    · ext key
      simp
    · ext key
      simp
    · rfl
  · intro token text args s
    unfold Action.Ends
    rw [Names.named_driver]
    simp only [catalogBackend, Action.perform_ofStep]
    cases hkey : driver.asked? home ⟨text, args⟩ with
    | none => exact ⟨rfl, fun rows key _ hnone => nomatch hnone⟩
    | some key =>
      refine ⟨rfl, fun rows key' hrows hsome => ?_⟩
      obtain rfl := Option.some.inj hsome
      obtain rfl := Except.ok.inj hrows
      refine ⟨s.1.contains key, ?_, by simp⟩
      cases driver <;> cases s.1.contains key <;> rfl

/-- A connection to a server that is nothing but its catalog. -/
def catalogConnection (driver : Driver) (dsn : Dsn) : Connection (List TableKey × Bool) where
  dsn := dsn
  backend := catalogBackend driver (driver.home dsn)
  reached := { get := (·.2), set := fun b s => (s.1, b) }

/-- A server that is nothing but its catalog refuses no statement. -/
theorem execAll_catalog_ok {d : Dialect} {driver : Driver} {dsn : Dsn} (texts : List String)
    (s : List TableKey × Bool) :
    ((d.execAll (catalogConnection driver dsn) (.ofToken .never) texts).perform s).1 = .ok () := by
  have hexec (text : String) (s : List TableKey × Bool) : ∃ t,
      (d.exec (catalogConnection driver dsn) (.ofToken .never) ⟨text, []⟩).perform s =
        (.ok (), t) := by
    have hbackend : ∃ out t, ((catalogBackend driver (driver.home dsn)).exec .never text []).perform
        s = (.ok out, t) := by
      simp only [catalogBackend, Action.perform_ofStep]
      split <;> exact ⟨_, _, rfl⟩
    obtain ⟨out, t, ht⟩ := hbackend
    have hconnection : ((catalogConnection driver dsn).exec (.ofToken .never) text []).perform s =
        (.ok out, t) := by
      rw [Connection.perform_exec]
      exact ht
    refine ⟨t, ?_⟩
    rw [Dialect.exec, Action.perform_mapFailure, Action.perform_bind_ok hconnection]
    rfl
  induction texts generalizing s with
  | nil => rfl
  | cons text texts ih =>
    obtain ⟨t, ht⟩ := hexec text s
    show ((d.exec _ _ _ >>= fun _ => d.execAll _ _ texts).perform s).1 = _
    rw [Action.perform_bind_ok ht]
    exact ih t

/-- What a history answers when it has made its table on a server without tables: nothing if its
options are refused. -/
def madeThenAsked (driver : Driver) (dsn : Dsn) (o : Dialect.Options) : Option Bool :=
  match Dialect.choose driver dsn o with
  | .error _ => none
  | .ok d =>
    let history := d.history (catalogConnection driver dsn) (pure 0)
    match (history.create (.ofToken .never)).perform ([], false) with
    | (.error _, _) => none
    | (.ok (), s) => ((history.isCreated (.ofToken .never)).perform s).1.toOption

/-- A table in another database than that of the connection is made, and then not found; nor is one
with a capital in its name. -/
theorem made_table_not_found :
    let dsn (driver : Driver) : Dsn := ⟨driver, "localhost", [], "default", "default", "", [], ""⟩
    let names := Names.of .clickHouse (dsn .clickHouse) ⟨"analytics.migrates", "", false⟩
    names.base .clickHouse = ⟨"analytics", "migrates"⟩ ∧
    names.asked .clickHouse (Driver.clickHouse.home (dsn .clickHouse)) = ⟨"default", "migrates"⟩ ∧
    madeThenAsked .clickHouse (dsn .clickHouse) ⟨"analytics.migrates", "", false⟩ = some false ∧
    madeThenAsked .postgres (dsn .postgres) ⟨"Migration", "", false⟩ = some false := by
  refine ⟨?_, ?_, ?_, ?_⟩ <;> decide +kernel

/-- On a cluster the table in the connection's own database is found when it is made. -/
theorem made_table_found_clustered :
    let dsn : Dsn := ⟨.clickHouse, "localhost", [], "shop", "default", "", [], ""⟩
    let o : Dialect.Options := ⟨"migration", "main", false⟩
    ∃ d, Dialect.choose .clickHouse dsn o = .ok d ∧
      d.makes "shop" = [⟨"shop", "migration"⟩, ⟨"shop", "d_migration"⟩] ∧
      let history := d.history (catalogConnection .clickHouse dsn) (pure 0)
      ∀ yes, ((history.isCreated (.ofToken .never)).perform
          ((history.create (.ofToken .never)).perform ([], false)).2).1 = .ok yes → yes = true := by
  intro dsn o
  let n := Names.of .clickHouse dsn o
  let d := Dialect.named .clickHouse n o.replicated
  let history := d.history (catalogConnection .clickHouse dsn) (pure 0)
  have hreads : Dialect.Reads .clickHouse dsn := by
    intro _
    have hok : (ClickHouse.Settings.ofDsn dsn).isOk = true := by decide +kernel
    cases h : ClickHouse.Settings.ofDsn dsn with
    | ok settings => exact ⟨settings, rfl⟩
    | error e =>
      rw [h] at hok
      cases hok
  have hchoose : Dialect.choose .clickHouse dsn o = .ok d :=
    Dialect.choose_of_identifiers hreads (by decide +kernel)
  have hhome : Driver.clickHouse.home dsn = "shop" := by decide +kernel
  have htables : n.tables .clickHouse o.replicated =
      [⟨"shop", "migration"⟩, ⟨"shop", "d_migration"⟩] := by decide +kernel
  have hfound : n.Found .clickHouse (Driver.clickHouse.home dsn) :=
    show n.schema = Driver.clickHouse.home dsn by decide +kernel
  obtain ⟨hmakes, -, -, -, -, hserver⟩ := made_table_found_iff hchoose
  obtain ⟨-, hcreate, -⟩ := hserver (catalogConnection .clickHouse dsn) (pure 0) _ (.ofToken .never)
    (catalogBackend_catalogs .clickHouse _ n o.replicated) rfl
  have hok : ((history.create (.ofToken .never)).perform ([], false)).1 = .ok () :=
    execAll_catalog_ok d.create ([], false)
  refine ⟨d, hchoose, hhome ▸ hmakes.trans htables, fun yes hyes => ?_⟩
  exact (hcreate ([], false) hok yes hyes).mpr (.inl hfound)

end SchemaMigration
