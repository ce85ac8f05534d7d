import SchemaMigration.Proofs.IdentifierNames
import SchemaMigration.Proofs.IntegerReading
import SchemaMigration.Proofs.RevertProgress
/-! # How much a limit allows

A limit goes two ways.  What is pending is cut by it, and so `up` and the pending migrations keep to
every number, zero included.  What has been applied is asked of the history with the limit as a
number, in which zero stands for no limit: there `down`, `redo` and the applied migrations keep to
the numbers from one on (`Migrator.limits_bound`), and with zero they go through the whole history
(`Migrator.zero_is_no_limit`).

A history in a table leaves the cutting to the server.  Its statement names the number, in the form
of the product (`Dialect.listsUpTo_of_choose`), and the server is only relied upon to heed it
(`Connection.Heeds`). -/
namespace SchemaMigration

variable {σ : Type}

/-! ### Listings up to a number of rows -/

/-- The name of a table, with its schema or without. -/
def IsTableName (name : String) : Prop :=
  ∀ c ∈ name.toList, Identifier.isPlain c = true ∨ c = '.'

instance (name : String) : Decidable (IsTableName name) :=
  List.decidableBAll (fun c : Char => Identifier.isPlain c = true ∨ c = '.') name.toList

/-- The statements that list a history and ask for `n` rows at most: of a table, of a table whose
rows may be deleted, and of a space. -/
inductive ListsUpTo (n : Nat) : String → Prop
  | table {name : String} (hname : IsTableName name) :
    ListsUpTo n ("SELECT version, apply_time FROM " ++ name ++
      " ORDER BY apply_time DESC, version DESC" ++ " LIMIT " ++ toString n)
  | undeleted {name : String} (hname : IsTableName name) :
    ListsUpTo n ("SELECT version, apply_time FROM " ++ name ++
      " WHERE is_deleted = 0 ORDER BY apply_time DESC, version DESC" ++ " LIMIT " ++ toString n)
  | space {name : String} (hname : IsTableName name) :
    ListsUpTo n ("return box.space." ++ name ++
      ".index.apply_time:select(\x7b\x7d, \x7biterator='LT', limit=" ++ toString n ++ "\x7d)")

/-- The server at the other end gives no more rows than a listing asks for. -/
def Connection.Heeds (c : Connection σ) : Prop :=
  ∀ n text, 0 < n → ListsUpTo n text → ∀ ctx, c.Serves ctx → ∀ s,
    (c.query ctx text []).Gives s fun rows _ => rows.unvisited.length ≤ n

theorem IsTableName.of_isIdentifier {name : String} (h : Identifier.IsIdentifier name) :
    IsTableName name := fun c hc => .inl (h.1 c hc)

theorem IsTableName.append {name rest : String} (h : IsTableName name) (hrest : IsTableName rest) :
    IsTableName (name ++ rest) := by
  intro c hc
  rw [String.toList_append, List.mem_append] at hc
  exact hc.elim (h c) (hrest c)

namespace Dialect

theorem limitClause_of_pos {n : Nat} (h : 0 < n) : limitClause n = " LIMIT " ++ toString n := by
  rw [limitClause, if_neg (Nat.ne_of_gt h)]
  rfl

/-- The listing of a dialect that was chosen asks for as many rows as it is to. -/
theorem listsUpTo_of_choose {driver : Driver} {dsn : Dsn} {o : Options} {d : Dialect}
    (h : choose driver dsn o = .ok d) {n : Nat} (hn : 0 < n) : ListsUpTo n (d.list n) := by
  obtain ⟨hnames, rfl⟩ := choose_ok h
  generalize Names.of driver dsn o = names at hnames
  have hname (name : String) (hmem : name ∈ names.all) : IsTableName name :=
    .of_isIdentifier (hnames name hmem)
  have hschema := hname names.schema (by simp [Names.all])
  have htable := hname names.table (by simp [Names.all])
  cases driver with
  | clickHouse =>
    show ListsUpTo n ("SELECT version, apply_time FROM " ++ _ ++ _ ++ limitClause n)
    rw [limitClause_of_pos hn, ← String.append_assoc]
    refine .undeleted ?_
    -- reads go to the table itself, or to the one that spans the cluster
    rw [ClickHouse.HistoryTable.readFrom]
    split
    · exact (hschema.append (by decide)).append htable
    · exact (hschema.append (by decide)).append htable
  | postgres =>
    show ListsUpTo n ("SELECT version, apply_time FROM " ++ _ ++ _ ++ limitClause n)
    rw [limitClause_of_pos hn, ← String.append_assoc]
    exact .table ((hschema.append (by decide)).append htable)
  | mySql =>
    show ListsUpTo n ("SELECT version, apply_time FROM " ++ _ ++ _ ++ limitClause n)
    rw [limitClause_of_pos hn, ← String.append_assoc]
    exact .table htable
  | tarantool =>
    have hoptions : Tarantool.HistorySpace.listOptions n =
        "\x7biterator='LT', limit=" ++ toString n ++ "\x7d" := if_neg (Nat.ne_of_gt hn)
    have hfront : ".index.apply_time:select(\x7b\x7d, \x7biterator='LT', limit=" =
        ".index.apply_time:select(\x7b\x7d, " ++ "\x7biterator='LT', limit=" := by decide
    have hback : "\x7d)" = "\x7d" ++ ")" := by decide
    have htext := ListsUpTo.space (n := n) htable
    show ListsUpTo n ("return box.space." ++ names.table ++
      ".index.apply_time:select(\x7b\x7d, " ++ Tarantool.HistorySpace.listOptions n ++ ")")
    rw [hfront, hback] at htext
    rw [hoptions]
    simpa only [String.append_assoc] using htext

end Dialect

/-! ### Histories that keep to a limit -/

/-- The histories that a program can have, with the contexts that they serve: a dialect that was
chosen keeps one in a table, on a server that heeds the limits of its listings, and one can be kept
in memory. -/
inductive History.Kept : History σ → (Context σ → Prop) → Prop
  | table {driver : Driver} {dsn : Dsn} {o : Dialect.Options} {d : Dialect} {c : Connection σ}
    {clock : Action σ Int} (hchoice : Dialect.choose driver dsn o = .ok d) (hserver : c.Heeds) :
    Kept (d.history c clock) c.Serves
  | memory {place : Part σ Memory} {c : Connection σ} {safe : Bool} {broken : List String}
    {serves : Context σ → Prop} : Kept (Memory.history place c safe broken) serves

theorem Applied.length_of_ofRows {rows : Rows} {applied : List Applied}
    (h : ofRows rows = .ok applied) : applied.length = rows.unvisited.length := by
  rw [ofRows] at h
  generalize rows.unvisited = cells at h
  induction cells generalizing applied with
  | nil =>
    cases h
    rfl
  | cons row cells ih =>
    rw [List.mapM_cons] at h
    cases hrow : ofRow row with
    | error e =>
      rw [hrow] at h
      cases h
    | ok first =>
      cases hrest : cells.mapM ofRow with
      | error e =>
        rw [hrow, hrest] at h
        cases h
      | ok rest =>
        rw [hrow, hrest] at h
        cases h
        rw [List.length_cons, List.length_cons, ih hrest]

theorem Applied.length_atMost_le {n : Nat} (hn : 0 < n) (applied : List Applied) :
    (atMost n applied).length ≤ n := by
  rw [atMost, if_neg (Nat.ne_of_gt hn)]
  exact List.length_take_le n applied

/-- A listing with a limit has no more rows than that. -/
theorem History.Kept.list_gives {h : History σ} {serves : Context σ → Prop} (hkept : h.Kept serves)
    {ctx : Context σ} (hctx : serves ctx) {n : Nat} (hn : 0 < n) (s : σ) :
    (h.list ctx n).Gives s fun applied _ => applied.length ≤ n := by
  cases hkept with
  | table hchoice hserver =>
    have htext := Dialect.listsUpTo_of_choose hchoice hn
    refine .bind (.mapFailure (hserver n _ hn htext ctx hctx s)) fun rows t hrows => ?_
    refine .ofExcept fun applied happlied => ?_
    rwa [Applied.length_of_ofRows happlied]
  | memory =>
    refine .bind (R := fun _ _ => True) (fun _ _ => trivial) fun memory t _ => ?_
    exact .pure (Applied.length_atMost_le hn _)

namespace Migrator

variable {m : Migrator σ} {serves : Context σ → Prop} {files : Files} {ctx : Context σ}

theorem applied_gives (hkept : m.history.Kept serves) (hctx : serves ctx) {n : Nat} (hn : 0 < n)
    (s : σ) : (m.applied ctx (.count n)).Gives s fun rows _ => rows.length ≤ n := by
  refine .bind (R := fun _ _ => True) (fun _ _ => trivial) fun created t _ => ?_
  cases created with
  | false => exact .pure (Nat.zero_le n)
  | true => exact hkept.list_gives hctx hn t

theorem pending_gives (files : Files) (ctx : Context σ) (n : Nat) (s : σ) :
    (m.pending files ctx (.count n)).Gives s fun fs _ => fs.length ≤ n := by
  intro fs hfs
  obtain ⟨applied, catalog, -, -, rfl⟩ := pending_ok (Prod.ext hfs rfl)
  exact List.length_take_le n _

/-! ### Plans that keep to a limit -/

/-- A plan that reverts so many migrations at most and applies so many. -/
structure Sized (reverts applies : Nat) (p : Plan) : Prop where
  downs : p.downs.length ≤ reverts
  ups : p.ups.length ≤ applies
  reverting : ∀ f ∈ p.downs, f.direction = .down
  applying : ∀ f ∈ p.ups, f.direction = .up

theorem planUp_gives (files : Files) (ctx : Context σ) (n : Nat) (s : σ) :
    (m.planUp files ctx (.count n)).Gives s fun p _ => Sized 0 n p := by
  refine .bind (R := fun _ _ => True) (fun _ _ => trivial) fun applied t _ => ?_
  refine .bind (R := fun catalog _ => files.catalog m.directory = .ok catalog)
    (.ofExcept fun catalog hscan => hscan) fun catalog t hscan => .pure ?_
  obtain ⟨scripts, -, hholds⟩ := Files.catalog_holds hscan
  refine ⟨le_refl 0, List.length_take_le n _, nofun, fun f hf => ?_⟩
  exact ((hholds.mem .up f).mp (Plan.pending_sublist.subset (List.mem_of_mem_take hf))).2

/-- A plan for the first rows of the history, when a plan for so many rows is sized. -/
theorem planFirst_gives {limit : Limit} {idle : Plan}
    {plan : List Applied → Catalog → Except Failure Plan} {n reverts applies : Nat} {s : σ}
    (happlied : (m.applied ctx limit).Gives s fun rows _ => rows.length ≤ n)
    (hidle : Sized reverts applies idle)
    (hplan : ∀ rows catalog p, rows.length ≤ n → files.catalog m.directory = .ok catalog →
      plan rows catalog = .ok p → Sized reverts applies p) :
    (m.planFirst files ctx limit idle plan).Gives s fun p _ => Sized reverts applies p := by
  intro p hp
  obtain ⟨rows, hrows, hmade⟩ := planFirst_ok (Prod.ext hp rfl)
  rcases hmade with ⟨-, rfl⟩ | ⟨catalog, hscan, hmade⟩
  · exact hidle
  · exact hplan rows catalog p (happlied.of_perform hrows) hscan hmade

theorem planDown_gives (hkept : m.history.Kept serves) (hctx : serves ctx) (files : Files) {n : Nat}
    (hn : 0 < n) (s : σ) :
    (m.planDown files ctx (.count n)).Gives s fun p _ => Sized n 0 p := by
  rw [planDown]
  refine planFirst_gives (applied_gives hkept hctx hn s) ⟨Nat.zero_le n, le_refl 0, nofun, nofun⟩
    fun rows catalog p hlength hscan hback => ?_
  obtain ⟨hdowns, hups⟩ := Plan.back_of_ok hback
  exact ⟨hdowns.length_eq ▸ hlength, hups ▸ le_refl 0, hdowns.direction_eq hscan, hups ▸ nofun⟩

theorem planRedo_gives (hkept : m.history.Kept serves) (hctx : serves ctx) (files : Files) {n : Nat}
    (hn : 0 < n) (s : σ) :
    (m.planRedo files ctx (.count n)).Gives s fun p _ => Sized n n p := by
  rw [planRedo]
  refine planFirst_gives (applied_gives hkept hctx hn s)
    ⟨Nat.zero_le n, Nat.zero_le n, nofun, nofun⟩ fun rows catalog p hlength hscan hagain => ?_
  obtain ⟨hdowns, hups⟩ := Plan.again_of_ok hagain
  refine ⟨hdowns.length_eq ▸ hlength, ?_, hdowns.direction_eq hscan, hups.direction_eq hscan⟩
  rwa [hups.length_eq, List.length_reverse]

/-! ### Runs of a plan -/

/-- How a plan is carried out from a state: the operator does not agree and nothing runs, all its
scripts run one after another, or they run up to one that fails. -/
inductive CarriedOut (m : Migrator σ) (files : Files) (ctx : Context σ) (p : Plan) (s : σ) :
    Except Failure Summary → σ → Prop
  | left {r : Except Failure Summary} (hnot : ¬m.Agrees p s)
    (hr : ∀ summary, r = .ok summary → summary = ⟨[], [], true⟩) :
    CarriedOut m files ctx p s r ((m.confirm p).perform s).2
  | complete {u : σ} (hcourse : Course m files ctx (m.agreed p s) p.steps u) :
    CarriedOut m files ctx p s (.ok (p.steps.foldl Summary.add .empty)) u
  | stopped {before rest : List MigrationFile} {f : MigrationFile} {t u : σ} {e : Failure}
    (hsteps : p.steps = before ++ f :: rest) (hcourse : Course m files ctx (m.agreed p s) before t)
    (hf : (m.execute files ctx f).perform t = (.error e, u)) :
    CarriedOut m files ctx p s
      (.error (.migrationFailed f.version before.length p.steps.length e)) u

theorem run_carriedOut (p : Plan) (s : σ) :
    (m.run files ctx p).Ends s (CarriedOut m files ctx p s) := by
  by_cases hagrees : m.Agrees p s
  · rw [Action.Ends, run_eq_proceed hagrees]
    rcases course_or_failure m files ctx (m.agreed p s) p.steps with
      ⟨u, hcourse⟩ | ⟨before, f, rest, t, e, u, hsteps, hcourse, hf⟩
    · rw [proceed_of_complete hcourse]
      exact .complete hcourse
    · rw [proceed_of_stopped hsteps hcourse hf]
      exact .stopped hsteps hcourse hf
  · rw [Action.Ends, run_of_not_agrees files ctx hagrees]
    exact .left hagrees fun summary hsummary =>
      (declined_of_run_ok hagrees (Prod.ext hsummary rfl)).1

/-- An operation that is planned first reverts so many migrations at most, and applies so many. -/
structure Within (m : Migrator σ) (files : Files) (ctx : Context σ) (reverts applies : Nat) (s : σ)
    (planning : Action σ Plan) (operation : Action σ Summary) : Prop where
  /-- Without a plan nothing runs. -/
  unplanned : ∀ e t, planning.perform s = (.error e, t) → operation.perform s = (.error e, t)
  /-- The plan is of this size, and nothing but the plan is carried out. -/
  planned : ∀ p t, planning.perform s = (.ok p, t) →
    Sized reverts applies p ∧ operation.Ends s (CarriedOut m files ctx p t)
  /-- The answer tells of so many migrations. -/
  told : operation.Gives s fun summary _ =>
    summary.reverted.length ≤ reverts ∧ summary.applied.length ≤ applies

theorem within_of_plan {reverts applies : Nat} {s : σ} {planning : Action σ Plan}
    (hplan : planning.Gives s fun p _ => Sized reverts applies p) :
    Within m files ctx reverts applies s planning (planning >>= m.run files ctx) where
  unplanned _ _ h := Action.perform_bind_error h
  planned p t h := by
    refine ⟨hplan.of_perform h, ?_⟩
    rw [Action.Ends, Action.perform_bind_ok h]
    exact run_carriedOut p t
  told := by
    refine .bind hplan fun p t hsized summary hsummary => ?_
    rcases course_of_run_ok (Prod.ext hsummary rfl) with ⟨rfl, -⟩ | ⟨rfl, -⟩
    · rw [foldl_add_steps hsized.reverting hsized.applying, List.length_map, List.length_map]
      exact ⟨hsized.downs, hsized.ups⟩
    · exact ⟨Nat.zero_le _, Nat.zero_le _⟩

/-- **A limit is an upper bound, where zero is not no limit.**  Over every history that a program
can have, every directory and every state:

* With every number, zero included, `up` applies so many migrations at most and reverts none, and so
  many pending migrations are listed at most.
* With every number from one on, `down` reverts so many at most and applies none, `redo` reverts so
  many at most and applies so many again, and so many applied migrations are listed at most.
* With zero, these three do what they do without a limit. -/
theorem limits_bound (hkept : m.history.Kept serves) (hctx : serves ctx) (files : Files) (n : Nat)
    (s : σ) :
    (Within m files ctx 0 n s (m.planUp files ctx (.count n)) (m.up files ctx (.count n)) ∧
      (m.pending files ctx (.count n)).Gives s fun fs _ => fs.length ≤ n) ∧
    (0 < n →
      Within m files ctx n 0 s (m.planDown files ctx (.count n)) (m.down files ctx (.count n)) ∧
      Within m files ctx n n s (m.planRedo files ctx (.count n)) (m.redo files ctx (.count n)) ∧
      (m.applied ctx (.count n)).Gives s fun rows _ => rows.length ≤ n) ∧
    (m.down files ctx (.count 0) = m.down files ctx .all ∧
      m.redo files ctx (.count 0) = m.redo files ctx .all ∧
      m.applied ctx (.count 0) = m.applied ctx .all) :=
  ⟨⟨within_of_plan (planUp_gives files ctx n s), pending_gives files ctx n s⟩,
    fun hn => ⟨within_of_plan (planDown_gives hkept hctx files hn s),
      within_of_plan (planRedo_gives hkept hctx files hn s), applied_gives hkept hctx hn s⟩,
    rfl, rfl, rfl⟩

end Migrator

/-! ### A table on a bench -/

namespace Bench

/-- The number of rows that a listing asks for at its end. -/
def asked? (text : String) : Option Nat :=
  (Text.cutLast ' ' text.toList).bind fun parts => Number.readUnsigned? parts.2

/-- The answers of a server whose table has the rows of a history: a listing is cut where it asks
for it, and what else is asked has one row. -/
def served (memory : Memory) (text : String) : Rows :=
  match asked? text with
  | some n => .ofRows ["version", "apply_time"] ((memory.listing.take n).map fun a =>
      [.text a.version, .int (Int64.ofInt a.time)])
  | none => .ofValues [.int 1]

/-- A connection to a server with a table, which records the other statements. -/
def tabled : Connection Bench :=
  let b := Recorder.backend .postgres recorderPart
  let answer (token : Token Bench) (text : String) : Action Bench Rows := do
    token.check
    return served (← memoryPart.read) text
  connection { b with
    query := fun token text _ => answer token text
    transaction := fun token id =>
      { b.transaction token id with query := fun inner text _ => answer inner text } }

theorem asked?_of_word {front word : String} (hword : ' ' ∉ word.toList) :
    asked? (front ++ " " ++ word) = Number.readUnsigned? word.toList := by
  have htext : (front ++ " " ++ word).toList = front.toList ++ ' ' :: word.toList := by
    rw [String.toList_append, String.toList_append, List.append_assoc]
    rfl
  rw [asked?, htext, Text.cutLast_append hword]
  rfl

theorem readUnsigned?_toString (n : Nat) :
    Number.readUnsigned? (toString n).toList = some n := by
  rw [show toString n = n.repr from rfl, Nat.toList_repr]
  exact Number.readUnsigned?_eq_some_iff.mpr
    ⟨_, .inl rfl, Number.isNumeral_toDigits n, Nat.ofDigitChars_ten_toDigits⟩

theorem space_notMem_toString (n : Nat) : ' ' ∉ (toString n).toList := by
  rw [show toString n = n.repr from rfl, Nat.toList_repr]
  intro hmem
  exact absurd ((Number.isNumeral_toDigits n).2 _ hmem) (by decide)

theorem asked?_limit (front : String) (n : Nat) :
    asked? (front ++ " LIMIT " ++ toString n) = some n := by
  have hlimit : " LIMIT " = " LIMIT" ++ " " := by decide
  rw [hlimit, ← String.append_assoc, asked?_of_word (space_notMem_toString n),
    readUnsigned?_toString]

/-- A listing of a space does not end in a number. -/
theorem asked?_space (front : String) (n : Nat) :
    asked? (front ++ ".index.apply_time:select(\x7b\x7d, \x7biterator='LT', limit=" ++ toString n ++
      "\x7d)") = none := by
  have hselect : ".index.apply_time:select(\x7b\x7d, \x7biterator='LT', limit=" =
      ".index.apply_time:select(\x7b\x7d, \x7biterator='LT'," ++ " " ++ "limit=" := by decide
  have hword : ("limit=" ++ toString n ++ "\x7d)").toList =
      'l' :: ("imit=".toList ++ (toString n).toList ++ "\x7d)".toList) := by
    rw [String.toList_append, String.toList_append]
    rfl
  have hspace : ' ' ∉ ("limit=" ++ toString n ++ "\x7d)").toList := by
    rw [String.toList_append, String.toList_append, List.mem_append, List.mem_append, not_or,
      not_or]
    exact ⟨⟨by decide, space_notMem_toString n⟩, by decide⟩
  have hparts : front ++ (".index.apply_time:select(\x7b\x7d, \x7biterator='LT'," ++ " " ++
      "limit=") ++ toString n ++ "\x7d)" =
      front ++ ".index.apply_time:select(\x7b\x7d, \x7biterator='LT'," ++ " " ++
        ("limit=" ++ toString n ++ "\x7d)") := by
    simp only [String.append_assoc]
  rw [hselect, hparts, asked?_of_word hspace, hword, Option.eq_none_iff_forall_ne_some]
  intro k hk
  obtain ⟨digits, hdigits, hnumeral, -⟩ := Number.readUnsigned?_eq_some_iff.mp hk
  rcases hdigits with rfl | hplus
  · exact absurd (hnumeral.2 'l' List.mem_cons_self) (by decide)
  · cases hplus

/-- The server of a bench heeds the limits of listings. -/
theorem tabled_heeds : tabled.Heeds := by
  have hserved {n : Nat} {text : String} (hn : 0 < n) (htext : ListsUpTo n text) (memory : Memory) :
      (served memory text).unvisited.length ≤ n := by
    have hlisted (hasked : asked? text = some n) : (served memory text).unvisited.length ≤ n := by
      rw [served, hasked]
      show (List.map _ _).length ≤ n
      rw [List.length_map]
      exact List.length_take_le n _
    cases htext with
    | table => exact hlisted (asked?_limit _ n)
    | undeleted => exact hlisted (asked?_limit _ n)
    | space =>
      rw [served, asked?_space]
      exact hn
  intro n text hn htext ctx hctx s
  have hanswer (token : Token Bench) (t : Bench) :
      (token.check >>= fun _ => do return served (← memoryPart.read) text).Gives t
        fun rows _ => rows.unvisited.length ≤ n := by
    refine .bind .check fun _ u _ => .bind (R := fun _ _ => True) (fun _ _ => trivial) ?_
    exact fun memory v _ => .pure (hserved hn htext memory)
  refine .bind .check fun _ t _ => ?_
  cases htransaction : ctx.transaction with
  | none => exact hanswer _ t
  | some transaction =>
    obtain ⟨token, id, rfl⟩ := hctx transaction htransaction
    exact hanswer _ t

/-- A migrator that keeps its history in the table of that server. -/
def tabling : Migrator Bench :=
  let d := Dialect.named .postgres (Names.of .postgres tabled.dsn .standard) false
  { migrator tabled with history := d.history tabled (do return (← memoryPart.read).clock) }

theorem tabling_kept : tabling.history.Kept tabled.Serves := by
  have hchoice : Dialect.choose .postgres tabled.dsn .standard = .ok _ :=
    Dialect.choose_of_identifiers nofun (by decide)
  exact .table hchoice tabled_heeds

end Bench

/-- With a limit of one, the last of two migrations is listed and reverted. -/
theorem Migrator.limits_bound_one :
    let m := Bench.tabling
    let ctx := Context.ofToken .never
    let s := Bench.holding ["210328_221600_a", "210329_121500_b"]
    m.history.Kept Bench.tabled.Serves ∧ Bench.tabled.Serves ctx ∧ 0 < 1 ∧
      Within m .withPairs ctx 1 0 s (m.planDown .withPairs ctx (.count 1))
        (m.down .withPairs ctx (.count 1)) ∧
      ((m.down .withPairs ctx (.count 1)).perform s).1.toOption =
        some ⟨["210329_121500_b"], [], false⟩ := by
  intro m ctx s
  have hctx : Bench.tabled.Serves ctx := fun _ h => nomatch h
  have hbound := limits_bound Bench.tabling_kept hctx .withPairs 1 s
  refine ⟨Bench.tabling_kept, hctx, Nat.one_pos, (hbound.2.1 Nat.one_pos).1, ?_⟩
  simp only [m, Bench.tabling, Bench.tabled, Bench.served, Memory.listing,
    Applied.newestFirst_eq_insertionSort]
  decide +kernel

/-- A limit of zero is none for what has been applied: both of two migrations are listed, reverted,
and applied again. -/
theorem Migrator.zero_is_no_limit :
    let m := Bench.migrator Bench.telling
    let ctx := Context.ofToken .never
    let s := Bench.holding ["210328_221600_a", "210329_121500_b"]
    ((m.applied ctx (.count 0)).perform s).1.toOption.map List.length = some 2 ∧
    ((m.down .withPairs ctx (.count 0)).perform s).1.toOption =
      some ⟨["210329_121500_b", "210328_221600_a"], [], false⟩ ∧
    ((m.redo .withPairs ctx (.count 0)).perform s).1.toOption =
      some ⟨["210329_121500_b", "210328_221600_a"], ["210328_221600_a", "210329_121500_b"],
        false⟩ := by
  intro m ctx s
  simp only [m, Bench.migrator, Memory.history, Memory.listing,
    Applied.newestFirst_eq_insertionSort]
  exact ⟨by decide +kernel, by decide +kernel, by decide +kernel⟩

end SchemaMigration
