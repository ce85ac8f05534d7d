import SchemaMigration.ClickHouse.Client
import SchemaMigration.Proofs.HistoryLedger
import SchemaMigration.Proofs.IdentifierNames
/-! # What a failure tells of the server's error

Each product has errors of its own, with codes of its own.  A failure *tells* a code if it is or
wraps a report in the common shape with that code (`Failure.Tells`); a bare error of a product tells
none (`Failure.report?_of_native`).  Here the failures of a backend are noted where they arise
(`Backend.alarmed`), so that what a call ends with can be compared with what went wrong in it
(`Action.Accounts`).

A statement that a history sends comes back with its code.  A transaction adds what can go wrong at
its beginning and at its end (`Aftermath`), and nobody gives those errors the common shape. -/
namespace SchemaMigration

variable {σ α β : Type}

/-! ### Codes -/

/-- The code in an error of a product's own. -/
def Driver.native? : Driver → Failure → Option String
  | .clickHouse, .exception e => some (toString e.code)
  | .postgres, .database (.server (.postgres _ code _ _ _)) => some code
  | .mySql, .database (.server (.mySql number _ _)) => some (toString number)
  | .tarantool, .tarantool code _ => some (toString code)
  | _, _ => none

/-- The failure is or wraps a report with a code. -/
def Failure.Tells (f : Failure) (code : String) : Prop := ∃ r, f.report? = some r ∧ r.code = code

/-- A bare error of a product is no report. -/
theorem Failure.report?_of_native {driver : Driver} {f : Failure} {code : String}
    (h : driver.native? f = some code) : f.report? = none := by
  unfold Driver.native? at h
  split at h <;> first | rfl | cases h

/-- A dialect gives the errors of its product the common shape. -/
theorem Dialect.report_tells {driver : Driver} {f : Failure} {code : String}
    (h : driver.native? f = some code) (n : Names) (replicated : Bool) (text : String) :
    ((Dialect.named driver n replicated).report text f).Tells code := by
  unfold Driver.native? at h
  split at h <;> first | exact ⟨_, rfl, Option.some.inj h⟩ | cases h

/-! ### Failures noted where they arise -/

/-- Where a backend fails. -/
inductive Stage where
  | statement (text : String)
  | begin
  | commit
  | rollback
  deriving DecidableEq, Repr

/-- A failure of a backend. -/
structure Alarm where
  stage : Stage
  failure : Failure

/-- Runs an action and notes its failure. -/
def Action.alarmed (log : Part σ (List Alarm)) (stage : Stage) (a : Action σ α) : Action σ α :=
  .ofStep fun s =>
    match a.perform s with
    | (.ok x, t) => (.ok x, t)
    | (.error f, t) => (.error f, log.set (log.get t ++ [⟨stage, f⟩]) t)

/-- A backend whose failures are noted. -/
def Backend.alarmed (log : Part σ (List Alarm)) (b : Backend σ) : Backend σ :=
  { b with
    query := fun token text args => (b.query token text args).alarmed log (.statement text)
    exec := fun token text args => (b.exec token text args).alarmed log (.statement text)
    begin := fun token => (b.begin token).alarmed log .begin
    transaction := fun token id =>
      { query := fun inner text args =>
          ((b.transaction token id).query inner text args).alarmed log (.statement text)
        exec := fun inner text args =>
          ((b.transaction token id).exec inner text args).alarmed log (.statement text)
        commit := (b.transaction token id).commit.alarmed log .commit
        rollback := (b.transaction token id).rollback.alarmed log .rollback } }

/-- A backend that leaves a view alone in all that a history asks of it. -/
structure Backend.Leaves {β : Type} (view : σ → β) (b : Backend σ) : Prop
    extends Backend.Keeps view b where
  query : ∀ token text args, (b.query token text args).Keeps view
  queryIn : ∀ token id inner text args, ((b.transaction token id).query inner text args).Keeps view

variable {log : Part σ (List Alarm)} {shown shown' : Alarm → Failure → Prop}

/-- Whatever the backend fails with in the action, the action fails too, and its failure is `shown`
for each of the failures that were noted. -/
def Action.Accounts (log : Part σ (List Alarm)) (shown : Alarm → Failure → Prop)
    (a : Action σ α) : Prop :=
  ∀ s, a.Ends s fun r t => ∃ noted, log.get t = log.get s ++ noted ∧
    ∀ alarm ∈ noted, ∃ f, r = .error f ∧ shown alarm f

namespace Action.Accounts

variable {a : Action σ α} {f : α → Action σ β}

theorem of_keeps (h : a.Keeps log.get) : a.Accounts log shown :=
  fun s => ⟨[], (h s).trans (List.append_nil _).symm, nofun⟩

theorem mono (h : a.Accounts log shown) (hshown : ∀ alarm f, shown alarm f → shown' alarm f) :
    a.Accounts log shown' := by
  refine fun s => (h s).mono fun r t ⟨noted, hlog, hnoted⟩ => ⟨noted, hlog, fun alarm halarm => ?_⟩
  obtain ⟨f, hr, hf⟩ := hnoted alarm halarm
  exact ⟨f, hr, hshown alarm f hf⟩

theorem mapFailure {g : Failure → Failure} (h : a.Accounts log shown)
    (hshown : ∀ alarm f, shown alarm f → shown' alarm (g f)) :
    (a.mapFailure g).Accounts log shown' := by
  refine fun s => Ends.mapFailure ((h s).mono fun r t ⟨noted, hlog, hnoted⟩ =>
    ⟨noted, hlog, fun alarm halarm => ?_⟩)
  obtain ⟨f, rfl, hf⟩ := hnoted alarm halarm
  exact ⟨g f, rfl, hshown alarm f hf⟩

/-- An action that succeeded has nothing to account for, and so the rest is all there is. -/
theorem bind (ha : a.Accounts log shown) (hf : ∀ x, (f x).Accounts log shown) :
    (a >>= f).Accounts log shown := by
  intro s
  refine .bind (ha s) ?_ ?_
  · rintro e t ⟨noted, hlog, hnoted⟩
    refine ⟨noted, hlog, fun alarm halarm => ?_⟩
    obtain ⟨f, he, hf⟩ := hnoted alarm halarm
    exact ⟨e, rfl, Except.error.inj he ▸ hf⟩
  · rintro x t ⟨noted, hlog, hnoted⟩
    obtain rfl : noted = [] := List.eq_nil_iff_forall_not_mem.mpr fun alarm halarm =>
      nomatch (hnoted alarm halarm).choose_spec.1
    rw [List.append_nil] at hlog
    exact hlog ▸ hf x t

theorem forM {δ : Type} {xs : List δ} {f : δ → Action σ PUnit}
    (hf : ∀ x ∈ xs, (f x).Accounts log shown) : (xs.forM f).Accounts log shown := by
  induction xs with
  | nil => exact of_keeps (.pure _)
  | cons x xs ih =>
    show (f x >>= fun _ => xs.forM f).Accounts log shown
    exact (hf x List.mem_cons_self).bind fun _ => ih fun y hy => hf y (List.mem_cons_of_mem x hy)

/-- Where nothing was noted before, the failures that are noted are those to account for. -/
theorem of_quiet {s : σ} (h : a.Accounts log shown) (hs : log.get s = []) :
    ∀ alarm ∈ log.get (a.perform s).2, ∃ f, (a.perform s).1 = .error f ∧ shown alarm f := by
  obtain ⟨noted, hlog, hnoted⟩ := h s
  rwa [hlog, hs]

end Action.Accounts

/-- How a noted action ends: what it fails with is what was noted. -/
theorem Action.alarmed_ends {a : Action σ α} (h : a.Keeps log.get) (stage : Stage) (s : σ) :
    (a.alarmed log stage).Ends s fun r t => match r with
      | .ok _ => log.get t = log.get s
      | .error f => log.get t = log.get s ++ [⟨stage, f⟩] := by
  unfold Ends alarmed
  rw [perform_ofStep]
  have hkeeps := h s
  rcases hperform : a.perform s with ⟨e | x, t⟩ <;> rw [hperform] at hkeeps
  · exact (log.get_set _ t).trans (congrArg (· ++ _) hkeeps)
  · exact hkeeps

theorem Action.alarmed_accounts {a : Action σ α} (h : a.Keeps log.get) (stage : Stage) :
    (a.alarmed log stage).Accounts log fun alarm f => alarm = ⟨stage, f⟩ := by
  refine fun s => (alarmed_ends h stage s).mono fun r t ht => ?_
  cases r with
  | error f => exact ⟨[⟨stage, f⟩], ht, fun alarm halarm => ⟨f, rfl, List.mem_singleton.mp halarm⟩⟩
  | ok x => exact ⟨[], ht.trans (List.append_nil _).symm, nofun⟩

/-! ### Transactions -/

/-- How the failure of a transaction stands to a failure that was noted in it, where `shown` is how
the failure of its body stands to one that was noted there. -/
inductive Aftermath (shown : Alarm → Failure → Prop) : Alarm → Failure → Prop where
  | begin (f) : Aftermath shown ⟨.begin, f⟩ f
  | body {alarm f} (h : shown alarm f) : Aftermath shown alarm f
  /-- The rollback after the body failed as well. -/
  | stuck {alarm f} (h : shown alarm f) (g) : Aftermath shown alarm (.rollback f g)
  | rollback (f g) : Aftermath shown ⟨.rollback, g⟩ (.rollback f g)
  | commit (f) : Aftermath shown ⟨.commit, f⟩ (.commit f)
  /-- The rollback after a commit that failed is not reported. -/
  | unreported (f g) : Aftermath shown ⟨.rollback, g⟩ (.commit f)

section Connection

variable {b : Backend σ} {c : Connection σ} {ctx : Context σ}

theorem Connection.settle_of_failed (hb : b.Leaves log.get) (token : Token σ) (id : Nat)
    (f : Failure) (s : σ) :
    (settle ((b.alarmed log).transaction token id) (.error f)).Ends s fun r t =>
      (r = .error f ∧ log.get t = log.get s) ∨
        ∃ g, r = .error (.rollback f g) ∧ log.get t = log.get s ++ [⟨.rollback, g⟩] := by
  refine .outcome_bind (Action.alarmed_ends (hb.rollback token id) .rollback s) fun r t ht => ?_
  cases r with
  | ok x => exact .inl ⟨rfl, ht⟩
  | error g => exact .inr ⟨g, rfl, ht⟩

theorem Connection.settle_of_done (hb : b.Leaves log.get) (token : Token σ) (id : Nat) (s : σ) :
    (settle ((b.alarmed log).transaction token id) (.ok ())).Ends s fun r t =>
      (r = .ok () ∧ log.get t = log.get s) ∨
        ∃ f noted, r = .error (.commit f) ∧ log.get t = log.get s ++ ⟨.commit, f⟩ :: noted ∧
          ∀ alarm ∈ noted, ∃ g, alarm = ⟨.rollback, g⟩ := by
  refine .outcome_bind (Action.alarmed_ends (hb.commit token id) .commit s) fun r t ht => ?_
  cases r with
  | ok x => exact .inl ⟨rfl, ht⟩
  | error f =>
    refine .outcome_bind (Action.alarmed_ends (hb.rollback token id) .rollback t) fun r u hu => ?_
    cases r with
    | ok x => exact .inr ⟨f, [], rfl, hu.trans ht, nofun⟩
    | error g =>
      refine .inr ⟨f, [⟨.rollback, g⟩], rfl, ?_, fun _ h => ⟨g, List.mem_singleton.mp h⟩⟩
      exact hu.trans (ht ▸ List.append_assoc _ _ _)

/-- The end of a transaction accounts for what was noted before it and for what it adds. -/
theorem Connection.settle_accounts (hb : b.Leaves log.get) (token : Token σ) (id : Nat)
    {r : Except Failure Unit} {before : List Alarm} {s : σ} {noted : List Alarm}
    (hlog : log.get s = before ++ noted)
    (hnoted : ∀ alarm ∈ noted, ∃ f, r = .error f ∧ shown alarm f) :
    (settle ((b.alarmed log).transaction token id) r).Ends s fun r t =>
      ∃ noted, log.get t = before ++ noted ∧
        ∀ alarm ∈ noted, ∃ f, r = .error f ∧ Aftermath shown alarm f := by
  rcases r with f | ⟨⟨⟩⟩
  · have hbody : ∀ alarm ∈ noted, shown alarm f := fun alarm halarm => by
      obtain ⟨_, hf, h⟩ := hnoted alarm halarm
      exact Except.error.inj hf ▸ h
    refine (settle_of_failed hb token id f s).mono ?_
    rintro _ t (⟨rfl, ht⟩ | ⟨g, rfl, ht⟩)
    · exact ⟨noted, ht.trans hlog, fun alarm halarm => ⟨f, rfl, .body (hbody alarm halarm)⟩⟩
    · refine ⟨noted ++ [⟨.rollback, g⟩], by rw [ht, hlog, List.append_assoc], ?_⟩
      refine fun alarm halarm => ⟨_, rfl, ?_⟩
      rcases List.mem_append.mp halarm with halarm | halarm
      · exact .stuck (hbody alarm halarm) g
      · exact List.mem_singleton.mp halarm ▸ .rollback f g
  · -- a body that succeeded has nothing to account for
    obtain rfl : noted = [] := List.eq_nil_iff_forall_not_mem.mpr fun alarm halarm =>
      nomatch (hnoted alarm halarm).choose_spec.1
    rw [List.append_nil] at hlog
    refine (settle_of_done hb token id s).mono ?_
    rintro _ t (⟨rfl, ht⟩ | ⟨f, added, rfl, ht, hadded⟩)
    · exact ⟨[], by rw [ht, hlog, List.append_nil], nofun⟩
    · refine ⟨⟨.commit, f⟩ :: added, by rw [ht, hlog], fun alarm halarm => ⟨_, rfl, ?_⟩⟩
      rcases List.mem_cons.mp halarm with rfl | halarm
      · exact .commit f
      · obtain ⟨g, rfl⟩ := hadded alarm halarm
        exact .unreported f g

variable (hc : c.backend = b.alarmed log) (hb : b.Leaves log.get)
include hc hb

/-- A transaction accounts for its beginning, its body and its end. -/
theorem Connection.transaction_accounts (ctx : Context σ) {body : Context σ → Action σ Unit}
    (hbody : ∀ inner, c.Serves inner → (body inner).Accounts log shown) :
    (c.transaction ctx body).Accounts log (Aftermath shown) := by
  rw [Connection.transaction]
  cases ctx.transaction with
  | some t => exact .of_keeps (.throw _)
  | none =>
    refine .bind (.of_keeps (.check _)) fun _ => ?_
    refine .bind ?_ fun id s => ?_
    · rw [hc]
      exact (Action.alarmed_accounts (hb.begin _) .begin).mono fun _ f h => h ▸ .begin f
    · refine .outcome_bind (hbody _ (c.serves_opened ctx id) s) fun r t hnoted => ?_
      obtain ⟨noted, hlog, hnoted⟩ := hnoted
      rw [hc]
      exact settle_accounts hb _ id hlog hnoted

/-- A statement fails as the backend does. -/
theorem Connection.exec_accounts (hctx : c.Serves ctx) (text : String) (args : List Value) :
    (c.exec ctx text args).Accounts log fun alarm f => alarm = ⟨.statement text, f⟩ := by
  refine .bind (.of_keeps (.check _)) fun _ => ?_
  cases htx : ctx.transaction with
  | none =>
    dsimp only
    rw [hc]
    exact Action.alarmed_accounts (hb.exec _ text args) _
  | some t =>
    obtain ⟨token, id, rfl⟩ := hctx t htx
    dsimp only
    rw [hc]
    exact Action.alarmed_accounts (hb.execIn _ _ _ text args) _

theorem Connection.query_accounts (hctx : c.Serves ctx) (text : String) (args : List Value) :
    (c.query ctx text args).Accounts log fun alarm f => alarm = ⟨.statement text, f⟩ := by
  refine .bind (.of_keeps (.check _)) fun _ => ?_
  cases htx : ctx.transaction with
  | none =>
    dsimp only
    rw [hc]
    exact Action.alarmed_accounts (hb.query _ text args) _
  | some t =>
    obtain ⟨token, id, rfl⟩ := hctx t htx
    dsimp only
    rw [hc]
    exact Action.alarmed_accounts (hb.queryIn _ _ _ text args) _

end Connection

/-! ### What a history shows -/

/-- An error of the product comes back with its code. -/
def Alarm.Told (driver : Driver) (alarm : Alarm) (f : Failure) : Prop :=
  ∀ code, driver.native? alarm.failure = some code → f.Tells code

/-- An error of the product comes back in no report. -/
def Alarm.Bare (driver : Driver) (alarm : Alarm) (f : Failure) : Prop :=
  ∀ code, driver.native? alarm.failure = some code → f.report? = none

/-- The error belongs to a statement, and comes back with its code. -/
def Alarm.Reported (driver : Driver) (alarm : Alarm) (f : Failure) : Prop :=
  (∃ text, alarm.stage = .statement text) ∧ alarm.Told driver f

/-- What becomes of an error, by where it arose: that of a statement comes back with its code unless
the statement is sent `bare`; those of the beginning and of a commit come back in no report; and
that of a rollback stands beside the failure before it, or is left out. -/
def Alarm.Shown (driver : Driver) (bare : String → Prop) (alarm : Alarm) (f : Failure) : Prop :=
  match alarm.stage with
  | .statement text =>
    (¬bare text → alarm.Told driver f) ∧ (bare text → alarm.Bare driver f)
  | .begin => alarm.Bare driver f
  | .commit => alarm.Bare driver f
  | .rollback => (∃ cause, f = .rollback cause alarm.failure) ∨ ∃ cause, f = .commit cause

section Shown

variable {driver : Driver} {bare : String → Prop} {alarm : Alarm} {f g : Failure}

theorem Alarm.shown_of_told {text : String} (hstage : alarm.stage = .statement text)
    (hbare : ¬bare text) (h : alarm.Told driver f) : alarm.Shown driver bare f := by
  unfold Shown
  rw [hstage]
  exact ⟨fun _ => h, fun hyes => absurd hyes hbare⟩

theorem Alarm.shown_of_bare {text : String} (hstage : alarm.stage = .statement text)
    (hbare : bare text) (h : alarm.Bare driver f) : alarm.Shown driver bare f := by
  unfold Shown
  rw [hstage]
  exact ⟨fun hno => absurd hbare hno, fun _ => h⟩

/-- What the failure of a body shows, it shows with the failure of the rollback beside it. -/
theorem Alarm.Shown.stuck {text : String} (hstage : alarm.stage = .statement text)
    (h : alarm.Shown driver bare f) : alarm.Shown driver bare (.rollback f g) := by
  unfold Shown at h ⊢
  rw [hstage] at h ⊢
  exact h

/-- The end of a transaction shows what is shown of its statements, and of its beginning and its
commit it shows nothing. -/
theorem Aftermath.shows {shown : Alarm → Failure → Prop}
    (hbody : ∀ alarm f, shown alarm f →
      (∃ text, alarm.stage = .statement text) ∧ alarm.Shown driver bare f)
    (h : Aftermath shown alarm f) : alarm.Shown driver bare f := by
  cases h with
  | begin f => exact fun _ hcode => Failure.report?_of_native hcode
  | body h => exact (hbody _ _ h).2
  | stuck h g =>
    obtain ⟨⟨_, hstage⟩, hshown⟩ := hbody _ _ h
    exact hshown.stuck hstage
  | rollback f g => exact .inl ⟨f, rfl⟩
  | commit f => exact fun _ hcode => show f.report? = none from Failure.report?_of_native hcode
  | unreported f g => exact .inr ⟨f, rfl⟩

end Shown

namespace Dialect

/-- A statement that the dialect sends in a transaction of its own to change its table. -/
def Commits (d : Dialect) (text : String) : Prop :=
  ∃ version time s, .committed s ∈ d.insert version time ++ d.remove version time ∧ s.text = text

/-- Only ClickHouse has changes that are sent in a transaction. -/
theorem plain_of_change {driver : Driver} (hdriver : driver ≠ .clickHouse) (n : Names)
    (replicated : Bool) (version : String) (time : Int) {change : Change}
    (h : change ∈ (named driver n replicated).insert version time ++
      (named driver n replicated).remove version time) : ∃ s, change = .plain s := by
  cases driver with
  | clickHouse => exact absurd rfl hdriver
  | postgres | mySql | tarantool =>
    rcases List.mem_append.mp h with h | h <;> exact ⟨_, List.mem_singleton.mp h⟩

/-- No statement is sent both in a transaction and without one to change a table. -/
theorem not_commits_of_plain (driver : Driver) (n : Names) (replicated : Bool) (version : String)
    (time : Int) {s : Statement} (h : .plain s ∈ (named driver n replicated).insert version time ++
      (named driver n replicated).remove version time) :
    ¬(named driver n replicated).Commits s.text := by
  rintro ⟨version', time', s', hcommitted, htext⟩
  by_cases hdriver : driver = .clickHouse
  · subst hdriver
    let t : ClickHouse.HistoryTable := ⟨n.schema, n.table, n.cluster, replicated⟩
    have hinsert : s'.text =
        "INSERT INTO " ++ t.base ++ " (version, apply_time, is_deleted) VALUES (?, ?, ?)" := by
      simp only [named, ClickHouse.HistoryTable.dialect, ClickHouse.HistoryTable.append,
        List.mem_append, List.mem_cons, Change.committed.injEq, reduceCtorEq, List.not_mem_nil,
        or_false] at hcommitted
      rcases hcommitted with rfl | rfl <;> rfl
    have hoptimize : s.text = "OPTIMIZE TABLE " ++ t.base ++ t.onCluster ++ " FINAL" := by
      simp only [named, ClickHouse.HistoryTable.dialect, ClickHouse.HistoryTable.append,
        List.mem_append, List.mem_cons, Change.plain.injEq, reduceCtorEq, List.not_mem_nil,
        or_false, false_or, or_self] at h
      rw [h]
    have htexts := congrArg String.toList (hinsert.symm.trans (htext.trans hoptimize))
    simp [String.toList_append] at htexts
  · obtain ⟨_, hplain⟩ := plain_of_change hdriver n replicated version' time' hcommitted
    cases hplain

variable {b : Backend σ} {c : Connection σ} {ctx : Context σ} {driver : Driver}
variable {n : Names} {replicated : Bool}
variable (hc : c.backend = b.alarmed log) (hb : b.Leaves log.get) (hctx : c.Serves ctx)
include hc hb hctx

theorem exec_accounts (s : Statement) : ((named driver n replicated).exec c ctx s).Accounts log
    fun alarm f => alarm.stage = .statement s.text ∧ alarm.Told driver f := by
  refine .mapFailure (.bind (c.exec_accounts hc hb hctx s.text s.args) fun _ =>
    .of_keeps (.pure _)) ?_
  rintro _ f rfl
  exact ⟨rfl, fun _ hcode => report_tells hcode n replicated s.text⟩

theorem scalar_accounts (s : Statement) :
    ((named driver n replicated).scalar c ctx s).Accounts log (Alarm.Reported driver) := by
  refine .mapFailure (.bind (c.query_accounts hc hb hctx s.text s.args) fun _ =>
    .of_keeps (.ofExcept _)) ?_
  rintro _ f rfl
  exact ⟨⟨_, rfl⟩, fun _ hcode => report_tells hcode n replicated s.text⟩

theorem applied_accounts (limit : Nat) :
    ((named driver n replicated).applied c ctx limit).Accounts log (Alarm.Reported driver) := by
  refine .bind (.mapFailure (c.query_accounts hc hb hctx _ []) ?_) fun _ =>
    .of_keeps (.ofExcept _)
  rintro _ f rfl
  exact ⟨⟨_, rfl⟩, fun _ hcode => report_tells hcode n replicated _⟩

theorem ask_accounts (s : Statement) (v : Verdict) :
    ((named driver n replicated).ask c ctx s v).Accounts log (Alarm.Reported driver) :=
  .bind (scalar_accounts hc hb hctx s) fun _ => .of_keeps (.ofExcept _)

theorem execAll_accounts (texts : List String) :
    ((named driver n replicated).execAll c ctx texts).Accounts log (Alarm.Reported driver) :=
  .forM fun text _ => (exec_accounts hc hb hctx ⟨text, []⟩).mono fun _ _ h => ⟨⟨_, h.1⟩, h.2⟩

/-- A change shows what its kind lets it show. -/
theorem change_accounts {version : String} {time : Int} {change : Change}
    (h : change ∈ (named driver n replicated).insert version time ++
      (named driver n replicated).remove version time) :
    ((named driver n replicated).change c ctx change).Accounts log
      (Alarm.Shown driver (named driver n replicated).Commits) := by
  cases change with
  | plain s =>
    refine (exec_accounts hc hb hctx s).mono fun alarm f hf => ?_
    exact Alarm.shown_of_told hf.1 (not_commits_of_plain driver n replicated version time h) hf.2
  | committed s =>
    refine (c.transaction_accounts hc hb ctx fun inner hinner => .bind
      (c.exec_accounts hc hb hinner s.text s.args) fun _ => .of_keeps (.pure _)).mono ?_
    refine fun alarm f => Aftermath.shows ?_
    rintro _ f rfl
    exact ⟨⟨_, rfl⟩, Alarm.shown_of_bare rfl ⟨version, time, s, h, rfl⟩
      fun _ hcode => Failure.report?_of_native hcode⟩

omit hc hb hctx in
/-- The calls that record and forget a version show what each of their changes shows. -/
theorem records_account {clock : Action σ Int} (hclock : clock.Keeps log.get) (version : String)
    (hchange : ∀ time change, change ∈ (named driver n replicated).insert version time ++
        (named driver n replicated).remove version time →
      ((named driver n replicated).change c ctx change).Accounts log shown) :
    (((named driver n replicated).history c clock).insert ctx version).Accounts log shown ∧
      (((named driver n replicated).history c clock).remove ctx version).Accounts log shown :=
  ⟨.bind (.of_keeps hclock) fun time => .forM fun change hmem =>
      hchange time change (List.mem_append_left _ hmem),
    .bind (.of_keeps hclock) fun time => .forM fun change hmem =>
      hchange time change (List.mem_append_right _ hmem)⟩

/-- **Which errors of the product a history tells.**  Over every backend, for every product and all
names, from a context that the connection serves:

* whatever goes wrong in a listing, a question, a count, the making and the dropping of the table or
  a statement of a script is an error of a statement, and comes back with its code;
* a transaction whose body reports in this way tells the errors of its statements; but an error of
  the product at its beginning or at its commit comes back in no report, and one of its rollback
  stands beside the failure of the body or is left out;
* recording and forgetting a version report in this way on every product but ClickHouse.  There the
  row is sent in a transaction of its own, and neither an error of its statement nor one of its
  beginning or its commit comes back in a report; what goes wrong in the merging does. -/
theorem errors_told (driver : Driver) (n : Names) (replicated : Bool) {clock : Action σ Int}
    (hclock : clock.Keeps log.get) :
    let d := named driver n replicated
    let h := d.history c clock
    ((∀ limit, (h.list ctx limit).Accounts log (Alarm.Reported driver)) ∧
      (h.isCreated ctx).Accounts log (Alarm.Reported driver) ∧
      (h.create ctx).Accounts log (Alarm.Reported driver) ∧
      (h.drop ctx).Accounts log (Alarm.Reported driver) ∧
      (h.count ctx).Accounts log (Alarm.Reported driver) ∧
      (∀ version, (h.contains ctx version).Accounts log (Alarm.Reported driver)) ∧
      (∀ text args, (h.exec ctx text args).Accounts log (Alarm.Reported driver)) ∧
      ∀ text args, (h.scalar ctx text args).Accounts log (Alarm.Reported driver)) ∧
    (∀ body, (∀ inner, c.Serves inner → (body inner).Accounts log (Alarm.Reported driver)) →
      (h.transaction ctx body).Accounts log (Alarm.Shown driver fun _ => False)) ∧
    (driver ≠ .clickHouse → ∀ version,
      (h.insert ctx version).Accounts log (Alarm.Reported driver) ∧
      (h.remove ctx version).Accounts log (Alarm.Reported driver)) ∧
    ∀ version, (h.insert ctx version).Accounts log (Alarm.Shown driver d.Commits) ∧
      (h.remove ctx version).Accounts log (Alarm.Shown driver d.Commits) := by
  intro d h
  refine ⟨⟨applied_accounts hc hb hctx, ask_accounts hc hb hctx _ _, execAll_accounts hc hb hctx _,
    execAll_accounts hc hb hctx _, ?_, fun version => ask_accounts hc hb hctx _ _, ?_, ?_⟩,
    ?_, ?_, ?_⟩
  · exact .bind (scalar_accounts hc hb hctx _) fun _ =>
      .bind (.of_keeps (.ofExcept _)) fun _ => .of_keeps (.pure _)
  · exact fun text args => (exec_accounts hc hb hctx ⟨text, args⟩).mono fun _ _ hf =>
      ⟨⟨_, hf.1⟩, hf.2⟩
  · exact fun text args => scalar_accounts hc hb hctx ⟨text, args⟩
  · intro body hbody
    refine (c.transaction_accounts hc hb ctx hbody).mono fun alarm f => Aftermath.shows ?_
    rintro alarm f ⟨⟨text, hstage⟩, htold⟩
    exact ⟨⟨text, hstage⟩, Alarm.shown_of_told hstage not_false htold⟩
  · intro hdriver version
    refine records_account hclock version fun time change hmem => ?_
    obtain ⟨s, rfl⟩ := plain_of_change hdriver n replicated version time hmem
    exact (exec_accounts hc hb hctx s).mono fun _ _ hf => ⟨⟨_, hf.1⟩, hf.2⟩
  · exact fun version => records_account hclock version fun _ _ hmem =>
      change_accounts hc hb hctx hmem

end Dialect

/-! ### A server that refuses everything -/

theorem Token.guard_keeps {β : Type} {view : σ → β} (token : Token σ) {a : Action σ α}
    (ha : a.Keeps view) : (token.guard a).Keeps view :=
  .bind (.check _) fun _ => .bind ha.outcome fun _ => .bind (.check _) fun _ => .ofExcept _

namespace ClickHouse.Client

variable {β : Type} {view : σ → β} {net : Transport σ} {place : Part σ Client}

theorem kept_keeps (id : Nat) : (kept place id).Keeps view :=
  .bind (.read _) fun _ => by split <;> first | exact .pure _ | exact .throw _

section Keeps

variable (s : Settings) (hnet : ∀ r, (net.send r).Keeps view)
include hnet

theorem post_keeps (sql : String) : (post s net place sql).Keeps view :=
  .bind (.read _) fun _ => .bind (hnet _) fun _ => .ofExcept _

theorem exec_keeps (text : String) (args : List Value) : (exec s net place text args).Keeps view :=
  .bind (.ofExcept _) fun _ => .bind (post_keeps s hnet _) fun _ => .pure _

theorem query_keeps (text : String) (args : List Value) :
    (query s net place text args).Keeps view :=
  .bind (.ofExcept _) fun _ => .bind (post_keeps s hnet _) fun _ => .ofExcept _

/-- A client leaves alone what neither it nor its way to the endpoints touches. -/
theorem backend_leaves (hplace : ∀ client s, view (place.set client s) = view s) :
    (backend s net place).Leaves view where
  query token text args := token.guard_keeps (query_keeps s hnet text args)
  exec token text args := token.guard_keeps (exec_keeps s hnet text args)
  begin token := .bind (.check _) fun _ => .bind (.read _) fun _ =>
    .bind (.write hplace _) fun _ => .pure _
  queryIn token id inner text args := .bind (kept_keeps id) fun _ =>
    inner.guard_keeps (query_keeps s hnet text args)
  execIn token id inner text args := by
    refine .bind (kept_keeps id) fun _ => ?_
    split
    · exact .bind (.ofExcept _) fun _ => .bind (.change hplace _) fun _ => .pure _
    · exact inner.guard_keeps (exec_keeps s hnet text args)
  commit token id := by
    have hflush (sql : String) :
        (token.guard do let _ ← post s net place sql : Action σ Unit).Keeps view :=
      token.guard_keeps (.bind (post_keeps s hnet sql) fun _ => .pure _)
    exact .bind (.check _) fun _ => .bind (kept_keeps id) fun _ => .bind (.change hplace _) fun _ =>
      .forM hflush
  rollback token id := .bind (kept_keeps id) fun _ => .change hplace _

end Keeps

end ClickHouse.Client

/-- A client on its own, and the failures that were noted. -/
structure Counter where
  client : ClickHouse.Client
  alarms : List Alarm
  reached : Bool

namespace Counter

/-- The parts of a counter. -/
def clientPart : Part Counter ClickHouse.Client :=
  { get := (·.client), set := fun client s => { s with client := client } }
def alarmsPart : Part Counter (List Alarm) :=
  { get := (·.alarms), set := fun alarms s => { s with alarms := alarms } }

/-- A server without the table. -/
def tableless : ClickHouse.Transport Counter :=
  ⟨fun _ => pure ⟨404, some "60", "Code: 60. DB::Exception: Table default.migration does not exist."
    ++ " (UNKNOWN_TABLE)"⟩⟩

/-- A client of that server. -/
def backend : Backend Counter :=
  ClickHouse.Client.backend ⟨"http://localhost:8123", [], "default", "default", ""⟩ tableless
    clientPart

/-- A connection whose failures are noted. -/
def connection : Connection Counter where
  dsn := ⟨.clickHouse, "localhost", [], "", "", "default", [], ""⟩
  backend := backend.alarmed alarmsPart
  reached := { get := (·.reached), set := fun b s => { s with reached := b } }

/-- The history that is kept there. -/
def dialect : Dialect := .named .clickHouse ⟨"default", "migration", ""⟩ false
def history : History Counter := dialect.history connection (pure 1616969760)

/-- A version is recorded. -/
def insertion : Except Failure Unit × Counter :=
  (history.insert (.ofToken .never) "210328_221600_a").perform ⟨.start, [], false⟩

/-- A transaction sends one statement of a script. -/
def transaction : Except Failure Unit × Counter :=
  (history.transaction (.ofToken .never) fun inner =>
    history.exec inner "DROP TABLE default.migration" []).perform ⟨.start, [], false⟩

/-- The errors of ClickHouse that were noted, by where they arose. -/
def errors (s : Counter) : List (Stage × String) :=
  s.alarms.filterMap fun alarm => (Driver.clickHouse.native? alarm.failure).map (alarm.stage, ·)

/-- The code that the failure of a call tells. -/
def told? : Except Failure Unit → Option String
  | .ok () => none
  | .error f => f.report?.map (·.code)

theorem told?_eq_some_iff {r : Except Failure Unit} {code : String} :
    told? r = some code ↔ ∃ f, r = .error f ∧ f.Tells code := by
  rcases r with f | ⟨⟨⟩⟩
  · simp [told?, Failure.Tells]
  · simp [told?]

/-- The server's exception stops the commit, and comes back without its code. -/
theorem insertion_untold : errors insertion.2 = [(.commit, "60")] ∧
    ¬∃ f, insertion.1 = .error f ∧ f.Tells "60" := by
  have htold : errors insertion.2 = [(.commit, "60")] ∧ told? insertion.1 = none := by
    decide +kernel
  refine ⟨htold.1, fun h => ?_⟩
  rw [← told?_eq_some_iff, htold.2] at h
  cases h

/-- What is noted there is accounted for: the exception that stops the commit in no report, and the
exception that a statement of a script meets with its code. -/
theorem errors_told_tableless :
    (∀ alarm ∈ alarmsPart.get insertion.2, ∃ f, insertion.1 = .error f ∧
      alarm.Shown .clickHouse dialect.Commits f) ∧
    (∀ alarm ∈ alarmsPart.get transaction.2, ∃ f, transaction.1 = .error f ∧
      alarm.Shown .clickHouse (fun _ => False) f) ∧
    errors transaction.2 = [(.statement "DROP TABLE default.migration", "60")] := by
  have hleaves : backend.Leaves alarmsPart.get :=
    ClickHouse.Client.backend_leaves _ (fun _ => .pure _) fun _ _ => rfl
  have houtside : connection.Serves (.ofToken .never) := nofun
  have htold (ctx : Context Counter) (hctx : connection.Serves ctx) :=
    Dialect.errors_told rfl hleaves hctx .clickHouse
      ⟨"default", "migration", ""⟩ false (.pure 1616969760)
  have hbody (inner : Context Counter) (hinner : connection.Serves inner) :=
    (htold inner hinner).1.2.2.2.2.2.2.1 "DROP TABLE default.migration" []
  have hinsertion := ((htold _ houtside).2.2.2 "210328_221600_a").1.of_quiet
    (s := ⟨.start, [], false⟩) rfl
  have htransaction := ((htold _ houtside).2.1 _ hbody).of_quiet (s := ⟨.start, [], false⟩) rfl
  unfold insertion transaction history dialect
  exact ⟨hinsertion, htransaction, by decide +kernel⟩

end Counter

end SchemaMigration
