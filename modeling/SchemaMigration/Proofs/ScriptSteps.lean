import SchemaMigration.Proofs.HistoryLedger
/-! # The steps of a script

A script is read; its statements run one after another, between a begin and a commit if the script
is safe; and then its version is noted.  It succeeds exactly if each of these steps does
(`Migrator.execute_ok_iff`), and otherwise it ends with the failure of the first one that does not
(`Migrator.execute_error_iff`).  Statements stop at the first that fails, after those before it
have succeeded (`Migrator.forM_error_iff`).

Steps are followed from state to state, so nothing is assumed of the history or of the connection
but that the transactions of the one are those of the other. -/
namespace SchemaMigration

variable {σ α β : Type}

/-! ### Sequences -/

section Sequences

variable {a : Action σ α} {f : α → Action σ β} {s u : σ}

/-- A sequence succeeds exactly if its first part does, and then the rest from where it ended. -/
theorem Action.perform_bind_ok_iff {y : β} :
    (a >>= f).perform s = (.ok y, u) ↔
      ∃ x t, a.perform s = (.ok x, t) ∧ (f x).perform t = (.ok y, u) := by
  rcases h : a.perform s with ⟨e | x, t⟩
  · rw [perform_bind_error h]
    exact iff_of_false nofun nofun
  · rw [perform_bind_ok h]
    refine ⟨fun hrest => ⟨x, t, rfl, hrest⟩, ?_⟩
    rintro ⟨_, _, ⟨⟩, hrest⟩
    exact hrest

/-- A sequence fails exactly if its first part does, or the rest from where that ended. -/
theorem Action.perform_bind_error_iff {e : Failure} :
    (a >>= f).perform s = (.error e, u) ↔
      a.perform s = (.error e, u) ∨
      ∃ x t, a.perform s = (.ok x, t) ∧ (f x).perform t = (.error e, u) := by
  rcases h : a.perform s with ⟨e' | x, t⟩
  · rw [perform_bind_error h]
    refine ⟨fun heq => .inl (by cases heq; rfl), ?_⟩
    rintro (⟨⟨⟩⟩ | ⟨_, _, ⟨⟩, -⟩)
    rfl
  · rw [perform_bind_ok h]
    refine ⟨fun hrest => .inr ⟨x, t, rfl, hrest⟩, ?_⟩
    rintro (⟨⟨⟩⟩ | ⟨_, _, ⟨⟩, hrest⟩)
    exact hrest

end Sequences

/-! ### Transactions -/

/-- A context that has a transaction is refused another one, and nothing happens. -/
theorem Connection.transaction_refused (c : Connection σ) {ctx : Context σ} {t : Transaction σ}
    (h : ctx.transaction = some t) (body : Context σ → Action σ Unit) (s : σ) :
    (c.transaction ctx body).perform s = (.error .transactionAlreadyOpened, s) := by
  rw [Connection.transaction, h]
  rfl

section Transaction

variable (c : Connection σ) {ctx : Context σ} {s t : σ} (hctx : ctx.transaction = none)
variable (h : ctx.token.isRaised s = false)
include hctx h

/-- A begin that fails ends a transaction before its body. -/
theorem Connection.transaction_of_begin_error {e : Failure}
    (hbegin : (c.backend.begin ctx.token).perform s = (.error e, t))
    (body : Context σ → Action σ Unit) : (c.transaction ctx body).perform s = (.error e, t) := by
  have hcheck : ctx.token.check.perform s = (.ok (), s) := by simp [h]
  rw [Connection.transaction, hctx, Action.perform_bind_ok hcheck,
    Action.perform_bind_error hbegin]

/-- A begin that succeeds is followed by the body, and the body by the end. -/
theorem Connection.transaction_of_begin_ok {id : Nat}
    (hbegin : (c.backend.begin ctx.token).perform s = (.ok id, t))
    (body : Context σ → Action σ Unit) :
    (c.transaction ctx body).perform s =
      (settle (c.backend.transaction ctx.token id) ((body (c.opened ctx id)).perform t).1).perform
        ((body (c.opened ctx id)).perform t).2 := by
  have hcheck : ctx.token.check.perform s = (.ok (), s) := by simp [h]
  rw [Connection.transaction, hctx, Action.perform_bind_ok hcheck, Action.perform_bind_ok hbegin,
    Action.perform_outcome_bind]

end Transaction

/-- A transaction is ended well exactly if its body ended well and the commit does. -/
theorem Connection.settle_ok_iff {t : Transaction σ} {r : Except Failure Unit} {s u : σ} :
    (settle t r).perform s = (.ok (), u) ↔ r = .ok () ∧ t.commit.perform s = (.ok (), u) := by
  rcases r with e | _
  · refine iff_of_false (fun h => settle_of_error (congrArg Prod.fst h)) ?_
    rintro ⟨⟨⟩, -⟩
  rw [settle, Action.perform_outcome_bind, and_iff_right rfl]
  rcases t.commit.perform s with ⟨e | _, v⟩
  · refine iff_of_false ?_ (by rintro ⟨⟩)
    rw [Action.perform_outcome_bind]
    rintro ⟨⟩
  · exact Iff.rfl

/-- A transaction succeeds exactly if it is not inside another one, and its begin, its body and its
commit succeed. -/
theorem Connection.transaction_ok_iff {c : Connection σ} {ctx : Context σ}
    {body : Context σ → Action σ Unit} {s t : σ} :
    (c.transaction ctx body).perform s = (.ok (), t) ↔
      ctx.transaction = none ∧ ctx.token.isRaised s = false ∧
      ∃ id u v, (c.backend.begin ctx.token).perform s = (.ok id, u) ∧
        (body (c.opened ctx id)).perform u = (.ok (), v) ∧
        (c.backend.transaction ctx.token id).commit.perform v = (.ok (), t) := by
  cases hctx : ctx.transaction with
  | some other =>
    rw [c.transaction_refused hctx]
    exact iff_of_false (by rintro ⟨⟩) (by rintro ⟨⟨⟩, -⟩)
  | none =>
    rw [and_iff_right rfl]
    cases hraised : ctx.token.isRaised s with
    | true =>
      have hcheck : ctx.token.check.perform s = (.error .cancelled, s) := by simp [hraised]
      rw [Connection.transaction, hctx, Action.perform_bind_error hcheck]
      exact iff_of_false (by rintro ⟨⟩) (by rintro ⟨⟨⟩, -⟩)
    | false =>
      rw [and_iff_right rfl]
      rcases hbegin : (c.backend.begin ctx.token).perform s with ⟨e | id, u⟩
      · rw [c.transaction_of_begin_error hctx hraised hbegin]
        exact iff_of_false (by rintro ⟨⟩) (by rintro ⟨_, _, _, ⟨⟩, -⟩)
      · rw [c.transaction_of_begin_ok hctx hraised hbegin, settle_ok_iff]
        constructor
        · rintro ⟨hbody, hcommit⟩
          exact ⟨id, u, _, rfl, Prod.ext hbody rfl, hcommit⟩
        · rintro ⟨_, _, v, ⟨⟩, hbody, hcommit⟩
          rw [hbody]
          exact ⟨rfl, hcommit⟩

namespace Migrator

variable {m : Migrator σ} {c : Connection σ} {ctx : Context σ}

/-! ### Statements, one after another -/

/-- The statements succeed one after another and lead from a state to another. -/
inductive RunsAll (m : Migrator σ) (ctx : Context σ) : List String → σ → σ → Prop
  | nil {s} : RunsAll m ctx [] s s
  | cons {s t u text rest} (h : (m.runStatement ctx text).perform s = (.ok (), t))
      (hrest : RunsAll m ctx rest t u) : RunsAll m ctx (text :: rest) s u

theorem runsAll_iff {statements : List String} {s t : σ} :
    (statements.forM (m.runStatement ctx)).perform s = (.ok (), t) ↔
      RunsAll m ctx statements s t := by
  induction statements generalizing s with
  | nil =>
    refine ⟨?_, ?_⟩
    · rintro ⟨⟩
      exact .nil
    · rintro ⟨⟩
      rfl
  | cons text rest ih =>
    show (m.runStatement ctx text >>= fun _ => rest.forM (m.runStatement ctx)).perform s = _ ↔ _
    rw [Action.perform_bind_ok_iff]
    refine ⟨?_, ?_⟩
    · rintro ⟨⟨⟩, u, hfirst, hrest⟩
      exact .cons hfirst (ih.mp hrest)
    · rintro (_ | ⟨hfirst, hrest⟩)
      exact ⟨(), _, hfirst, ih.mpr hrest⟩

/-- Statements stop at the first that fails, after those before it have succeeded. -/
theorem forM_error_iff {statements : List String} {s t : σ} {e : Failure} :
    (statements.forM (m.runStatement ctx)).perform s = (.error e, t) ↔
      ∃ j, ∃ hj : j < statements.length, ∃ u, RunsAll m ctx (statements.take j) s u ∧
        (m.runStatement ctx statements[j]).perform u = (.error e, t) := by
  induction statements generalizing s with
  | nil =>
    refine iff_of_false nofun ?_
    rintro ⟨j, hj, -⟩
    exact absurd hj (Nat.not_lt_zero j)
  | cons text rest ih =>
    show (m.runStatement ctx text >>= fun _ => rest.forM (m.runStatement ctx)).perform s = _ ↔ _
    rw [Action.perform_bind_error_iff]
    constructor
    · rintro (hfails | ⟨⟨⟩, v, hfirst, hrest⟩)
      · exact ⟨0, Nat.zero_lt_succ _, s, .nil, hfails⟩
      · obtain ⟨j, hj, u, hbefore, hfails⟩ := ih.mp hrest
        exact ⟨j + 1, Nat.succ_lt_succ hj, u, .cons hfirst hbefore, hfails⟩
    · rintro ⟨_ | j, hj, u, hbefore, hfails⟩
      · cases hbefore
        exact .inl hfails
      · obtain ⟨⟩ | ⟨hfirst, hbefore⟩ := hbefore
        exact .inr ⟨(), _, hfirst, ih.mpr ⟨j, Nat.lt_of_succ_lt_succ hj, u, hbefore, hfails⟩⟩

/-! ### Whole scripts -/

/-- A script runs to its end: its statements succeed, and if it is safe, so do the begin before
them and the commit after them. -/
inductive Completes (m : Migrator σ) (c : Connection σ) (ctx : Context σ)
    (statements : List String) : Bool → σ → σ → Prop
  | plain {s t} (h : RunsAll m ctx statements s t) : Completes m c ctx statements false s t
  | safe {s t u v id} (houtside : ctx.transaction = none) (hlive : ctx.token.isRaised s = false)
      (hbegin : (c.backend.begin ctx.token).perform s = (.ok id, u))
      (hbody : RunsAll m (c.opened ctx id) statements u v)
      (hcommit : (c.backend.transaction ctx.token id).commit.perform v = (.ok (), t)) :
      Completes m c ctx statements true s t

theorem completes_iff (htransaction : m.history.transaction = c.transaction) (safely : Bool)
    {statements : List String} {s t : σ} :
    (m.runScript ctx safely statements).perform s = (.ok (), t) ↔
      Completes m c ctx statements (safely || m.history.alwaysSafe) s t := by
  rw [runScript]
  cases safely || m.history.alwaysSafe with
  | false =>
    rw [if_neg Bool.false_ne_true, runsAll_iff]
    refine ⟨.plain, ?_⟩
    rintro ⟨h⟩
    exact h
  | true =>
    rw [if_pos rfl, htransaction, Connection.transaction_ok_iff]
    refine ⟨?_, ?_⟩
    · rintro ⟨houtside, hlive, id, u, v, hbegin, hbody, hcommit⟩
      exact .safe houtside hlive hbegin (runsAll_iff.mp hbody) hcommit
    · rintro (_ | ⟨houtside, hlive, hbegin, hbody, hcommit⟩)
      exact ⟨houtside, hlive, _, _, _, hbegin, runsAll_iff.mpr hbody, hcommit⟩

/-! ### Scripts that are read, run and noted -/

section Attempt

variable {direction : Direction} {version : String} {safely : Bool}
variable {read : Except Failure (List String)} {s t : σ}

/-- A script that is read, run and noted succeeds exactly if each of the three does. -/
theorem attempt_ok_iff (htransaction : m.history.transaction = c.transaction) :
    (Action.ofExcept read >>= fun statements => m.runScript ctx safely statements >>=
      fun _ => m.note ctx direction version).perform s = (.ok (), t) ↔
      ∃ statements u, read = .ok statements ∧
        Completes m c ctx statements (safely || m.history.alwaysSafe) s u ∧
        (m.note ctx direction version).perform u = (.ok (), t) := by
  rw [Action.perform_bind_ok_iff, Action.perform_ofExcept]
  constructor
  · rintro ⟨statements, v, ⟨⟩, hrest⟩
    obtain ⟨⟨⟩, u, hrun, hnote⟩ := Action.perform_bind_ok_iff.mp hrest
    exact ⟨statements, u, rfl, (completes_iff htransaction safely).mp hrun, hnote⟩
  · rintro ⟨statements, u, rfl, hrun, hnote⟩
    refine ⟨statements, s, rfl, Action.perform_bind_ok_iff.mpr ⟨(), u, ?_, hnote⟩⟩
    exact (completes_iff htransaction safely).mpr hrun

/-- It fails exactly if one of the three does, after those before it. -/
theorem attempt_error_iff (htransaction : m.history.transaction = c.transaction) {e : Failure} :
    (Action.ofExcept read >>= fun statements => m.runScript ctx safely statements >>=
      fun _ => m.note ctx direction version).perform s = (.error e, t) ↔
      (read = .error e ∧ t = s) ∨
      ∃ statements, read = .ok statements ∧
        ((m.runScript ctx safely statements).perform s = (.error e, t) ∨
        ∃ u, Completes m c ctx statements (safely || m.history.alwaysSafe) s u ∧
          (m.note ctx direction version).perform u = (.error e, t)) := by
  rw [Action.perform_bind_error_iff, Action.perform_ofExcept]
  refine or_congr ?_ ?_
  · rw [Prod.mk.injEq, eq_comm (a := s)]
  · constructor
    · rintro ⟨statements, v, ⟨⟩, hrest⟩
      refine ⟨statements, rfl, (Action.perform_bind_error_iff.mp hrest).imp_right ?_⟩
      rintro ⟨⟨⟩, u, hrun, hnote⟩
      exact ⟨u, (completes_iff htransaction safely).mp hrun, hnote⟩
    · rintro ⟨statements, rfl, hrest⟩
      refine ⟨statements, s, rfl, Action.perform_bind_error_iff.mpr (hrest.imp_right ?_)⟩
      rintro ⟨u, hrun, hnote⟩
      exact ⟨(), u, (completes_iff htransaction safely).mpr hrun, hnote⟩

end Attempt

variable {files : Files} {f : MigrationFile} {s t : σ}

/-- **A script of a plan succeeds exactly if each of its steps does**: its file is read; its
statements succeed, and if it is safe, so do the begin before them and the commit after them; and
its version is noted. -/
theorem execute_ok_iff (htransaction : m.history.transaction = c.transaction) :
    (m.execute files ctx f).perform s = (.ok (), t) ↔
      ∃ statements u, f.statements files = .ok statements ∧
        Completes m c ctx statements (f.safely || m.history.alwaysSafe) s u ∧
        (m.note ctx f.direction f.version).perform u = (.ok (), t) :=
  attempt_ok_iff htransaction

/-- **It fails exactly if one of its steps does**, after those before it: the file cannot be read,
or the script does not run to its end, or its version is not noted. -/
theorem execute_error_iff (htransaction : m.history.transaction = c.transaction) {e : Failure} :
    (m.execute files ctx f).perform s = (.error e, t) ↔
      (f.statements files = .error e ∧ t = s) ∨
      ∃ statements, f.statements files = .ok statements ∧
        ((m.runScript ctx f.safely statements).perform s = (.error e, t) ∨
        ∃ u, Completes m c ctx statements (f.safely || m.history.alwaysSafe) s u ∧
          (m.note ctx f.direction f.version).perform u = (.error e, t)) :=
  attempt_error_iff htransaction

end Migrator

end SchemaMigration
