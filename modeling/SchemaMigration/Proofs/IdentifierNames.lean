import SchemaMigration.History.Choice
/-! # The names of a history table

The names that stand in the statements of a history are taken from the options and from the data
source name, by rules that differ from product to product.  Each of them is checked in the form in
which it is used, and a dialect is chosen exactly if all of them are identifiers
(`Dialect.choose_choice`). -/
namespace SchemaMigration

/-! ### Identifiers -/

namespace Identifier

/-- A name of letters, digits and underscores that is not too long; no name at all is one too. -/
def IsIdentifier (name : String) : Prop :=
  (∀ c ∈ name.toList, isPlain c = true) ∧ name.utf8ByteSize ≤ maxLength

instance (name : String) : Decidable (IsIdentifier name) :=
  decidable_of_iff (name.toList.all isPlain = true ∧ name.utf8ByteSize ≤ maxLength)
    (and_congr_left' List.all_eq_true)

/-- What parts a name: the schema is what stands before its first point, if there is one. -/
def Parts (name : String) : Option String × String → Prop
  | (some schema, table) => name = schema ++ "." ++ table ∧ '.' ∉ schema.toList
  | (none, table) => table = name ∧ '.' ∉ name.toList

theorem splitQualified_parts (name : String) : Parts name (splitQualified name) := by
  rw [splitQualified]
  rcases Text.cutFirst_cases '.' name.toList with
    ⟨hcut, hnot⟩ | ⟨schema, table, hcut, hparts, hnot⟩ <;> rw [hcut]
  · exact ⟨rfl, hnot⟩
  · refine ⟨String.toList_inj.mp ?_, by rwa [String.toList_ofList]⟩
    simp [hparts]

/-- A name is an identifier, or it is refused for a character or for its length. -/
theorem validate_cases (name : String) :
    (validate name = .ok () ∧ IsIdentifier name) ∨
      ¬IsIdentifier name ∧ ∃ why, validate name = .error (.invalidIdentifier name why) := by
  unfold validate
  split
  · rename_i c hfind
    refine .inr ⟨fun h => ?_, _, rfl⟩
    have hplain := h.1 c (List.mem_of_find?_eq_some hfind)
    have hnot := List.find?_some hfind
    rw [hplain] at hnot
    cases hnot
  · rename_i hfind
    have hplain : ∀ c ∈ name.toList, isPlain c = true := fun c hc => by
      simpa using List.find?_eq_none.mp hfind c hc
    split
    · rename_i hlong
      exact .inr ⟨fun h => absurd h.2 (Nat.not_le.mpr hlong), _, rfl⟩
    · rename_i hshort
      exact .inl ⟨rfl, hplain, Nat.not_lt.mp hshort⟩

/-- Names are identifiers, or one that is none is refused. -/
theorem validateAll_cases (names : List String) :
    (validateAll names = .ok () ∧ ∀ name ∈ names, IsIdentifier name) ∨
      ∃ name ∈ names, ¬IsIdentifier name ∧
        ∃ why, validateAll names = .error (.invalidIdentifier name why) := by
  induction names with
  | nil => exact .inl ⟨rfl, nofun⟩
  | cons name names ih =>
    have hall : validateAll (name :: names) = validate name >>= fun _ => validateAll names := rfl
    rcases validate_cases name with ⟨hok, hname⟩ | ⟨hname, why, herror⟩
    · replace hall : validateAll (name :: names) = validateAll names := by
        rw [hall, hok]
        rfl
      rw [hall]
      rcases ih with ⟨hrest, hnames⟩ | ⟨other, hmem, hother⟩
      · exact .inl ⟨hrest, List.forall_mem_cons.mpr ⟨hname, hnames⟩⟩
      · exact .inr ⟨other, List.mem_cons_of_mem _ hmem, hother⟩
    · refine .inr ⟨name, List.mem_cons_self, hname, why, ?_⟩
      rw [hall, herror]
      rfl

theorem isIdentifier_empty : IsIdentifier "" := ⟨nofun, by decide⟩

end Identifier

/-! ### The names that are used -/

/-- The names that the statements of a history are made with.  A product that has no use for one
leaves it empty. -/
structure Names where
  schema : String
  table : String
  cluster : String

namespace Names

def all (n : Names) : List String := [n.schema, n.table, n.cluster]

/-- The names for a product, a data source name and the options of a history. -/
def of (driver : Driver) (dsn : Dsn) (o : Dialect.Options) : Names :=
  let parts := Identifier.splitQualified o.table
  match driver with
  | .clickHouse =>
    let configured := ClickHouse.Settings.orElse dsn.database
      ((dsn.option? "database").getD "default")
    ⟨parts.1.getD configured, parts.2, o.cluster⟩
  | .postgres => ⟨parts.1.getD "public", parts.2, ""⟩
  | .mySql => ⟨dsn.database, o.table, ""⟩
  | .tarantool => ⟨"", o.table, ""⟩

end Names

/-- The dialect of a product for names. -/
def Dialect.named (driver : Driver) (n : Names) (replicated : Bool) : Dialect :=
  match driver with
  | .clickHouse => ClickHouse.HistoryTable.dialect ⟨n.schema, n.table, n.cluster, replicated⟩
  | .postgres => Postgres.HistoryTable.dialect ⟨n.schema, n.table⟩
  | .mySql => MySql.HistoryTable.dialect ⟨n.schema, n.table⟩
  | .tarantool => Tarantool.HistorySpace.dialect ⟨n.table⟩

/-! ### The choice -/

namespace ClickHouse.Settings

theorem baseUrl_error {secure : Bool} {host : String} {e : Failure}
    (h : baseUrl secure host = .error e) : ∃ host, e = .invalidDsn (.port host) := by
  rw [baseUrl] at h
  cases hsplit : splitHostPort host (if secure then 8443 else 8123) with
  | ok parts =>
    rw [hsplit] at h
    cases h
  | error f =>
    rw [hsplit] at h
    cases h
    unfold splitHostPort at hsplit
    split at hsplit
    · split at hsplit
      · cases hsplit
      · split at hsplit
        · split at hsplit
          · cases hsplit
          · cases hsplit
            exact ⟨host, rfl⟩
        · cases hsplit
          exact ⟨host, rfl⟩
    · cases hsplit

theorem baseUrls_error {secure : Bool} {hosts : List String} {e : Failure}
    (h : hosts.mapM (baseUrl secure) = .error e) : ∃ host, e = .invalidDsn (.port host) := by
  induction hosts with
  | nil => cases h
  | cons host hosts ih =>
    rw [List.mapM_cons] at h
    cases hfirst : baseUrl secure host with
    | error f =>
      rw [hfirst] at h
      cases h
      exact baseUrl_error hfirst
    | ok url =>
      rw [hfirst] at h
      cases hrest : hosts.mapM (baseUrl secure) with
      | error f =>
        rw [hrest] at h
        cases h
        exact ih hrest
      | ok urls =>
        rw [hrest] at h
        cases h

/-- Settings are refused for the port of a host only. -/
theorem ofDsn_cases (d : Dsn) :
    (∃ settings, ofDsn d = .ok settings ∧
        settings.database = orElse d.database ((d.option? "database").getD "default")) ∨
      ∃ host, ofDsn d = .error (.invalidDsn (.port host)) := by
  rw [ofDsn]
  cases hfirst : baseUrl (isSecure d) d.primary with
  | error e =>
    obtain ⟨host, rfl⟩ := baseUrl_error hfirst
    exact .inr ⟨host, rfl⟩
  | ok first =>
    cases hothers : (d.others ++ alternatives d).mapM (baseUrl (isSecure d)) with
    | error e =>
      obtain ⟨host, rfl⟩ := baseUrls_error hothers
      exact .inr ⟨host, rfl⟩
    | ok others => exact .inl ⟨_, rfl, rfl⟩

end ClickHouse.Settings

/-- The settings of a connection do not stand in the way: only ClickHouse asks for them. -/
def Dialect.Reads (driver : Driver) (dsn : Dsn) : Prop :=
  driver = .clickHouse → ∃ settings, ClickHouse.Settings.ofDsn dsn = .ok settings

/-- How the choice of a dialect goes. -/
inductive Dialect.Choice (driver : Driver) (dsn : Dsn) (o : Dialect.Options) :
    Except Failure Dialect → Prop
  /-- The port of a host is wrong, which ClickHouse finds out first. -/
  | port {host : String} (hdriver : driver = .clickHouse)
      (hport : ClickHouse.Settings.ofDsn dsn = .error (.invalidDsn (.port host))) :
      Choice driver dsn o (.error (.invalidDsn (.port host)))
  /-- One of the names is no identifier. -/
  | refused {name : String} {why : IdentifierFault} (hreads : Reads driver dsn)
      (hname : name ∈ (Names.of driver dsn o).all) (hnot : ¬Identifier.IsIdentifier name) :
      Choice driver dsn o (.error (.invalidIdentifier name why))
  /-- All names are identifiers. -/
  | made (hreads : Reads driver dsn)
      (hall : ∀ name ∈ (Names.of driver dsn o).all, Identifier.IsIdentifier name) :
      Choice driver dsn o (.ok (named driver (Names.of driver dsn o) o.replicated))

namespace Dialect

variable {dsn : Dsn} {o : Options}

/-- A choice that checks the names that are used, in whatever order. -/
theorem choice_of_checked (driver : Driver) (checked : List String) (hreads : Reads driver dsn)
    (hused : checked ⊆ (Names.of driver dsn o).all)
    (hrest : ∀ name ∈ (Names.of driver dsn o).all, name ∈ checked ∨ name = "") :
    Choice driver dsn o (Identifier.validateAll checked >>= fun _ =>
      .ok (named driver (Names.of driver dsn o) o.replicated)) := by
  rcases Identifier.validateAll_cases checked with ⟨hok, hall⟩ | ⟨name, hmem, hnot, why, herror⟩
  · rw [hok]
    refine .made hreads fun name hname => ?_
    rcases hrest name hname with hchecked | rfl
    · exact hall name hchecked
    · exact Identifier.isIdentifier_empty
  · rw [herror]
    exact .refused hreads (hused hmem) hnot

theorem choose_choice (driver : Driver) (dsn : Dsn) (o : Options) :
    Choice driver dsn o (choose driver dsn o) := by
  cases driver with
  | clickHouse =>
    show Choice .clickHouse dsn o (chooseClickHouse dsn o)
    rw [chooseClickHouse]
    rcases ClickHouse.Settings.ofDsn_cases dsn with ⟨settings, hok, hdatabase⟩ | ⟨host, herror⟩
    · have hchoice := choice_of_checked .clickHouse (Names.of .clickHouse dsn o).all
        (fun _ => ⟨settings, hok⟩) (List.Subset.refl _) fun _ => .inl
      rw [hok]
      -- the schema that the settings give is the one among the names
      unfold Names.of at hchoice
      rw [← hdatabase] at hchoice
      exact hchoice
    · rw [herror]
      exact .port rfl herror
  | postgres =>
    let n := Names.of .postgres dsn o
    exact choice_of_checked .postgres [n.schema, n.table] nofun (by simp [n, Names.all])
      (by simp [n, Names.of, Names.all])
  | mySql =>
    exact choice_of_checked .mySql [dsn.database, o.table] nofun
      (by simp [Names.of, Names.all]) (by simp [Names.of, Names.all])
  | tarantool =>
    have hchoice : Choice .tarantool dsn o _ := choice_of_checked .tarantool [o.table] nofun
      (by simp [Names.of, Names.all]) (by simp [Names.of, Names.all])
    have hone : Identifier.validateAll [o.table] = Identifier.validate o.table := by
      show (Identifier.validate o.table >>= fun _ => pure ()) = _
      cases Identifier.validate o.table <;> rfl
    rw [hone] at hchoice
    exact hchoice

/-- A choice is refused for a name exactly if one of the names is no identifier. -/
theorem choose_refused_iff (driver : Driver) (dsn : Dsn) (o : Options) :
    (∃ name why, choose driver dsn o = .error (.invalidIdentifier name why)) ↔
      Reads driver dsn ∧ ∃ name ∈ (Names.of driver dsn o).all, ¬Identifier.IsIdentifier name := by
  have hchoice := choose_choice driver dsn o
  generalize choose driver dsn o = r at hchoice
  cases hchoice with
  | port hdriver hport =>
    refine ⟨nofun, fun ⟨hreads, _⟩ => ?_⟩
    obtain ⟨settings, hok⟩ := hreads hdriver
    rw [hport] at hok
    cases hok
  | refused hreads hname hnot => exact ⟨fun _ => ⟨hreads, _, hname, hnot⟩, fun _ => ⟨_, _, rfl⟩⟩
  | made hreads hall =>
    refine ⟨nofun, fun ⟨_, name, hname, hnot⟩ => ?_⟩
    exact absurd (hall name hname) hnot

/-- A failure is that of a name that is no identifier, or that of a port, which ClickHouse finds out
first. -/
theorem choose_error {driver : Driver} {dsn : Dsn} {o : Options} {e : Failure}
    (h : choose driver dsn o = .error e) :
    (∃ name ∈ (Names.of driver dsn o).all, ¬Identifier.IsIdentifier name ∧
        ∃ why, e = .invalidIdentifier name why) ∨
      driver = .clickHouse ∧ ClickHouse.Settings.ofDsn dsn = .error e ∧
        ∃ host, e = .invalidDsn (.port host) := by
  have hchoice := choose_choice driver dsn o
  rw [h] at hchoice
  cases hchoice with
  | port hdriver hport => exact .inr ⟨hdriver, hport, _, rfl⟩
  | refused hreads hname hnot => exact .inl ⟨_, hname, hnot, _, rfl⟩

/-- A dialect that was chosen is that of names that are identifiers. -/
theorem choose_ok {driver : Driver} {dsn : Dsn} {o : Options} {d : Dialect}
    (h : choose driver dsn o = .ok d) :
    (∀ name ∈ (Names.of driver dsn o).all, Identifier.IsIdentifier name) ∧
      d = named driver (Names.of driver dsn o) o.replicated := by
  have hchoice := choose_choice driver dsn o
  rw [h] at hchoice
  cases hchoice with
  | made hreads hall => exact ⟨hall, rfl⟩

/-- Names that are identifiers are accepted. -/
theorem choose_of_identifiers {driver : Driver} {dsn : Dsn} {o : Options}
    (hreads : Reads driver dsn)
    (hall : ∀ name ∈ (Names.of driver dsn o).all, Identifier.IsIdentifier name) :
    choose driver dsn o = .ok (named driver (Names.of driver dsn o) o.replicated) := by
  cases h : choose driver dsn o with
  | ok d => rw [(choose_ok h).2]
  | error e =>
    rcases choose_error h with ⟨name, hname, hnot, -⟩ | ⟨hdriver, hport, -⟩
    · exact absurd (hall name hname) hnot
    · obtain ⟨settings, hok⟩ := hreads hdriver
      rw [hport] at hok
      cases hok

end Dialect

end SchemaMigration
