import SchemaMigration.Proofs.Planning
import SchemaMigration.Proofs.RecorderTransactions
import SchemaMigration.Proofs.ScriptSteps
/-! # Scripts and the changes that follow them

A history is changed after a script, never without one.  Everything that a migrator does comes
down to attempts at scripts (`Attempt`).  An attempt that fails before its note leaves the rows
of the history alone; on the recorder it leaves nothing if the script is safe, and the statements
before the one that failed if it is not.  Only when every statement has succeeded, in order, and
the one transaction of a safe script has committed, is the change to the history made.

The recorder is behind an obstacle, so that failures and cancellations may come between any two
calls. -/
namespace SchemaMigration

open Scripted (Fault)

variable {σ α β : Type}

namespace Recorder

/-- What statements inside a transaction come to: all of them take effect, or none. -/
def AllOrNothing (before : Recorder) (statements : List String) (a : Except Failure α)
    (r : Recorder) : Prop :=
  match a with
  | .ok _ => Committed before (statements.map (⟨·, [], true⟩)) r
  | .error _ => Undone before r

end Recorder

/-! ### The setting -/

/-- A migrator whose history sends statements over a connection to a recorder behind an obstacle.
The rows of the history are a view of the state that changes only when a migration is noted. -/
structure Migrator.OnRecorder (m : Migrator σ) (c : Connection σ) (driver : Driver)
    (place : Part σ Recorder) (o : Fault.Obstacle σ) (rows : σ → β) : Prop where
  backend : c.backend = Fault.behind o (Recorder.backend driver place)
  obstacle : o.Keeps place.get
  obstacle_rows : o.Keeps rows
  apart : ∀ r s, rows (place.set r s) = rows s
  exec : ∀ ctx text, ∃ g, m.history.exec ctx text [] = Action.mapFailure g do
    let _ ← c.exec ctx text []
  transaction : ∀ ctx body, m.history.transaction ctx body = c.transaction ctx body
  journal : ∀ level text, (m.journal level text).Keeps place.get
  journal_rows : ∀ level text, (m.journal level text).Keeps rows
  confirm : ∀ p, (m.confirm p).Keeps rows
  quiet : m.history.Quiet rows

/-- A context outside any transaction, whose cancellation touches neither the recorder nor the
rows. -/
structure Context.Outside (ctx : Context σ) (place : Part σ Recorder) (rows : σ → β) : Prop where
  transaction : ctx.transaction = none
  cancel : ctx.token.cancel.Keeps place.get
  cancel_rows : ctx.token.cancel.Keeps rows

variable {m : Migrator σ} {c : Connection σ} {driver : Driver} {place : Part σ Recorder}
variable {o : Fault.Obstacle σ} {rows : σ → β} {ctx : Context σ}

section Calls
variable (hm : m.OnRecorder c driver place o rows) (hctx : ctx.Outside place rows)
include hm hctx

namespace Migrator

/-! ### The rows during a script -/

/-- The two places that a statement can go to: straight to the recorder, or to a transaction. -/
theorem exec_keeps_rows {inner : Context σ} (hinner : inner = ctx ∨ ∃ id, inner = c.opened ctx id)
    (text : String) : (m.history.exec inner text []).Keeps rows := by
  obtain ⟨g, hg⟩ := hm.exec inner text
  rw [hg]
  refine .mapFailure g (.bind ?_ fun _ => .pure _)
  rcases hinner with rfl | ⟨id, rfl⟩
  · rw [Connection.exec, hctx.transaction, hm.backend]
    refine .bind (.check _) fun _ => .bind (hm.obstacle_rows _ _ hctx.cancel_rows) fun _ => ?_
    exact .bind (.check _) fun _ => .bind (.lift hm.apart _) fun _ => .pure _
  · rw [Connection.opened, hm.backend]
    refine .bind (.check _) fun _ => .bind (hm.obstacle_rows _ _ hctx.cancel_rows) fun _ => ?_
    exact .bind (.check _) fun _ => .bind (.lift hm.apart _) fun _ => .pure _

theorem statements_keep_rows {inner : Context σ}
    (hinner : inner = ctx ∨ ∃ id, inner = c.opened ctx id) (statements : List String) :
    (statements.forM (m.runStatement inner)).Keeps rows :=
  .forM fun text => (hm.journal_rows _ _).bind fun _ => exec_keeps_rows hm hctx hinner text

theorem runScript_keeps_rows (safely : Bool) (statements : List String) :
    (m.runScript ctx safely statements).Keeps rows := by
  rw [runScript]
  split
  · rw [hm.transaction]
    refine (c.transaction_wraps ctx _ ?_ ?_ ?_).keeps ?_
    · rw [hm.backend]
      exact .bind (hm.obstacle_rows _ _ hctx.cancel_rows) fun _ =>
        .bind (.check _) fun _ => .lift hm.apart _
    · rw [hm.backend]
      exact fun _ => .bind (hm.obstacle_rows _ _ (.pure _)) fun _ => .lift hm.apart _
    · rw [hm.backend]
      exact fun _ => .bind (hm.obstacle_rows _ _ (.pure _)) fun _ => .lift hm.apart _
    · rintro _ ⟨id, rfl⟩
      exact statements_keep_rows hm hctx (.inr ⟨id, rfl⟩) statements
  · exact statements_keep_rows hm hctx (.inl rfl) statements

/-! ### The recorder during a script -/

open Recorder (Inside Received Added Taken)

theorem runStatement_inside {before : Recorder} {id : Nat} {waiting : List Recorded} {s : σ}
    (h : Inside before id waiting (place.get s)) (text : String) :
    (m.runStatement (c.opened ctx id) text).Ends s fun a t =>
      Received before id waiting ⟨text, [], true⟩ a (place.get t) := by
  refine h.keeps_bind (hm.journal _ _) fun _ t h => ?_
  obtain ⟨g, hg⟩ := hm.exec (c.opened ctx id) text
  rw [hg]
  refine .mapFailure (.bind
    (Connection.exec_inside hm.backend hm.obstacle hctx.cancel text [] h) ?_ ?_)
  · exact fun _ _ h => h
  · exact fun _ _ h => h

/-- Statements inside a transaction wait in their order, up to one that fails. -/
theorem statements_inside {before : Recorder} {id : Nat} {waiting : List Recorded}
    (statements : List String) {s : σ} (h : Inside before id waiting (place.get s)) :
    (statements.forM (m.runStatement (c.opened ctx id))).Ends s fun a t =>
      ∃ new, Inside before id (waiting ++ new) (place.get t) ∧
        (a = .ok () → new = statements.map (⟨·, [], true⟩)) := by
  induction statements generalizing s waiting with
  | nil => exact ⟨[], (List.append_nil waiting).symm ▸ h, fun _ => rfl⟩
  | cons text rest ih =>
    refine .bind (runStatement_inside hm hctx h text) (fun e t ht => ?_) fun _ t ht => ?_
    · exact ⟨[], (List.append_nil waiting).symm ▸ ht, nofun⟩
    · refine (ih ht).mono fun a u ⟨new, hu, hok⟩ => ⟨⟨text, [], true⟩ :: new, ?_, fun ha => ?_⟩
      · rwa [List.append_assoc] at hu
      · rw [hok ha, List.map_cons]

theorem runStatement_outside (text : String) (s : σ) :
    (m.runStatement ctx text).Ends s fun a t =>
      Taken (place.get s) ⟨text, [], false⟩ a (place.get t) := by
  refine Taken.keeps_bind rfl (hm.journal _ _) fun _ t h => ?_
  obtain ⟨g, hg⟩ := hm.exec ctx text
  rw [hg, ← h]
  refine .mapFailure (.bind
    (Connection.exec_outside hm.backend hm.obstacle hctx.cancel hctx.transaction text []) ?_ ?_)
  · exact fun _ _ h => h
  · exact fun _ _ h => h

/-- A statement outside any transaction that fails leaves no trace. -/
theorem runStatement_failed {text : String} {s t : σ} {e : Failure}
    (h : (m.runStatement ctx text).perform s = (.error e, t)) : place.get t = place.get s := by
  have htaken := runStatement_outside hm hctx text s
  rwa [Action.Ends, h] at htaken

/-- Statements outside any transaction that succeed take effect in their order. -/
theorem RunsAll.added {statements : List String} {s t : σ} (h : RunsAll m ctx statements s t) :
    Added (place.get s) (statements.map (⟨·, [], false⟩)) (place.get t) := by
  induction h with
  | nil => exact .refl _
  | @cons s t u text rest hfirst _ ih =>
    have htaken := runStatement_outside hm hctx text s
    rw [Action.Ends, hfirst] at htaken
    exact Added.trans htaken ih

end Migrator

end Calls

/-! ### One script -/

/-- A script that an operation runs, and the change to the history that follows it. -/
structure Task where
  version : String
  direction : Direction
  /-- Whether it runs in a transaction. -/
  safely : Bool
  /-- Its statements, unless they cannot be read. -/
  statements : Except Failure (List String)

/-- The script of a file. -/
def Migrator.taskOf (m : Migrator σ) (files : Files) (f : MigrationFile) : Task :=
  ⟨f.version, f.direction, f.safely || m.history.alwaysSafe, f.statements files⟩

open Recorder (Inside Undone Committed Added AllOrNothing)

/-- What an attempt at a script comes to, from a state to an answer and a state. -/
inductive Attempt (m : Migrator σ) (ctx : Context σ) (place : Part σ Recorder) (rows : σ → β)
    (task : Task) : σ → Except Failure Unit → σ → Prop
  /-- The script cannot be read. -/
  | unread {s e} (h : task.statements = .error e) : Attempt m ctx place rows task s (.error e) s
  /-- A safe script failed at its begin, at a statement or at its commit, and left nothing. -/
  | undone {s t e statements} (h : task.statements = .ok statements) (hsafe : task.safely = true)
      (hfails : (m.runScript ctx true statements).perform s = (.error e, t))
      (hrecorder : Undone (place.get s) (place.get t)) (hrows : rows t = rows s) :
      Attempt m ctx place rows task s (.error e) t
  /-- Another script failed at a statement: those before it succeeded one after another and are
  left, and this one ended with the failure. -/
  | stopped {s t u e statements j} (h : task.statements = .ok statements)
      (hsafe : task.safely = false) (hj : j < statements.length)
      (hbefore : m.RunsAll ctx (statements.take j) s u)
      (hfails : (m.runStatement ctx statements[j]).perform u = (.error e, t))
      (hrecorder : Added (place.get s) ((statements.take j).map (⟨·, [], false⟩)) (place.get t))
      (hrows : rows t = rows s) : Attempt m ctx place rows task s (.error e) t
  /-- Every statement succeeded and the transaction of a safe script committed; then the change
  to the history was made. -/
  | noted {s t u r statements} (h : task.statements = .ok statements)
      (hrun : (m.runScript ctx task.safely statements).perform s = (.ok (), t))
      (hrecorder : if task.safely then
          Committed (place.get s) (statements.map (⟨·, [], true⟩)) (place.get t)
        else Added (place.get s) (statements.map (⟨·, [], false⟩)) (place.get t))
      (hrows : rows t = rows s)
      (hnote : (m.note ctx task.direction task.version).perform t = (r, u)) :
      Attempt m ctx place rows task s r u

section
variable (hm : m.OnRecorder c driver place o rows) (hctx : ctx.Outside place rows)
include hm hctx

/-- A safe script leaves all of its statements or none. -/
theorem Migrator.runScript_safe {safely : Bool} (h : (safely || m.history.alwaysSafe) = true)
    (statements : List String) (s : σ) :
    (m.runScript ctx safely statements).Ends s fun r t =>
      AllOrNothing (place.get s) statements r (place.get t) := by
  rw [runScript, if_pos h, hm.transaction]
  have hbody (id : Nat) (t : σ) (hin : Inside (place.get s) id [] (place.get t)) :
      (statements.forM (m.runStatement (c.opened ctx id))).Ends t fun a u =>
        ∃ new, Inside (place.get s) id new (place.get u) ∧
          (a = .ok () → new = statements.map (⟨·, [], true⟩)) :=
    statements_inside hm hctx statements hin
  refine (Connection.transaction_all_or_nothing hm.backend hm.obstacle hctx.cancel
    (R := fun _ _ a new => a = .ok () → new = statements.map (⟨·, [], true⟩))
    hctx.transaction hbody).mono fun r t hends => ?_
  cases r with
  | error e => exact hends.1
  | ok _ =>
    obtain ⟨⟨_, _, new, _, hnew, hcommitted⟩, -⟩ := hends
    rw [hnew rfl] at hcommitted
    exact hcommitted

/-- A script that is read, run and noted is attempted. -/
theorem Migrator.attempt_ends (version : String) (direction : Direction) (safely : Bool)
    (statements : Except Failure (List String)) (s : σ) :
    (Action.ofExcept statements >>= fun statements => m.runScript ctx safely statements >>=
      fun _ => m.note ctx direction version).Ends s
      (Attempt m ctx place rows ⟨version, direction, safely || m.history.alwaysSafe, statements⟩
        s) := by
  rcases statements with e | statements
  · exact .unread rfl
  have hsame : m.runScript ctx (safely || m.history.alwaysSafe) statements =
      m.runScript ctx safely statements := by
    rw [runScript, runScript, Bool.or_assoc, Bool.or_self]
  have hrows := runScript_keeps_rows hm hctx safely statements s
  -- the note comes only after a script that succeeded, so each failure is one of the script
  show (m.runScript ctx safely statements >>= fun _ => m.note ctx direction version).Ends s _
  cases hsafe : safely || m.history.alwaysSafe with
  | true =>
    rw [hsafe] at hsame
    refine .bind (R := fun r t => (m.runScript ctx true statements).perform s = (r, t) ∧
      rows t = rows s ∧ AllOrNothing (place.get s) statements r (place.get t)) ?_ ?_ ?_
    · exact ⟨by rw [hsame], hrows, runScript_safe hm hctx hsafe statements s⟩
    · rintro e t ⟨hrun, ht, h⟩
      exact .undone rfl rfl hrun h ht
    · rintro _ t ⟨hrun, ht, h⟩
      exact .noted rfl hrun h ht rfl
  | false =>
    rw [hsafe] at hsame
    have hplain : m.runScript ctx false statements = statements.forM (m.runStatement ctx) := by
      rw [hsame, runScript, if_neg (by simp [hsafe])]
    refine .bind (R := fun r t => (m.runScript ctx false statements).perform s = (r, t) ∧
      rows t = rows s) ?_ ?_ ?_
    · exact ⟨by rw [hsame], hrows⟩
    · rintro e t ⟨hrun, ht⟩
      rw [hplain] at hrun
      obtain ⟨j, hj, u, hbefore, hfails⟩ := forM_error_iff.mp hrun
      refine .stopped rfl rfl hj hbefore hfails ?_ ht
      rw [runStatement_failed hm hctx hfails]
      exact hbefore.added hm hctx
    · rintro _ t ⟨hrun, ht⟩
      have hall := hplain ▸ hrun
      exact .noted rfl hrun ((runsAll_iff.mp hall).added hm hctx) ht rfl

theorem Migrator.execute_attempt (files : Files) (f : MigrationFile) (s : σ) :
    (m.execute files ctx f).Ends s (Attempt m ctx place rows (m.taskOf files f) s) :=
  attempt_ends hm hctx f.version f.direction f.safely (f.statements files) s

end

/-! ### One script after another -/

/-- Attempts one after another, up to one that fails. -/
inductive Attempts (m : Migrator σ) (ctx : Context σ) (place : Part σ Recorder) (rows : σ → β) :
    List Task → σ → Except Failure Unit → σ → Prop
  | done {s} : Attempts m ctx place rows [] s (.ok ()) s
  | next {task rest s t r u} (h : Attempt m ctx place rows task s (.ok ()) t)
      (hrest : Attempts m ctx place rows rest t r u) :
      Attempts m ctx place rows (task :: rest) s r u
  | failed {task rest s e t} (h : Attempt m ctx place rows task s (.error e) t) :
      Attempts m ctx place rows (task :: rest) s (.error e) t

/-- What a migrator is asked to do. -/
inductive Operation where
  | up (limit : Limit)
  | down (limit : Limit)
  | redo (limit : Limit)
  | moveTo (version : String)
  | upgrade (version script : String) (safely : Bool)
  | downgrade (version script : String) (safely : Bool)

/-- Does what it is asked to do. -/
def Migrator.operate (m : Migrator σ) (files : Files) (ctx : Context σ) :
    Operation → Action σ Unit
  | .up limit => do let _ ← m.up files ctx limit
  | .down limit => do let _ ← m.down files ctx limit
  | .redo limit => do let _ ← m.redo files ctx limit
  | .moveTo version => do let _ ← m.moveTo files ctx version
  | .upgrade version script safely => m.upgrade ctx version script safely
  | .downgrade version script safely => m.downgrade ctx version script safely

/-- The scripts that a plan comes to: none if there is nothing to do, or if the operator says
no. -/
def Migrator.consented (m : Migrator σ) (files : Files) (p : Plan) : Action σ (List Task) := do
  if p.isEmpty then return []
  if ← m.confirm p then return p.steps.map (m.taskOf files) else return []

/-- What comes before the scripts: finding out which they are, and asking the operator. -/
def Migrator.prepare (m : Migrator σ) (files : Files) (ctx : Context σ) :
    Operation → Action σ (List Task)
  | .up limit => do m.consented files (← m.planUp files ctx limit)
  | .down limit => do m.consented files (← m.planDown files ctx limit)
  | .redo limit => do m.consented files (← m.planRedo files ctx limit)
  | .moveTo version => do m.consented files (← m.planMove files ctx version)
  | .upgrade version script safely => do
    if ← m.history.contains ctx version then throw (.migrationAlreadyExists version)
    return [⟨version, .up, safely || m.history.alwaysSafe, Script.statements script⟩]
  | .downgrade version script safely => do
    unless ← m.history.contains ctx version do throw (.appliedMigrationNotFound version)
    return [⟨version, .down, safely || m.history.alwaysSafe, Script.statements script⟩]

/-- The scripts that an operation may run: those of the directory, or the one that it is
given. -/
def Migrator.Asks (m : Migrator σ) (files : Files) : Operation → Task → Prop
  | .upgrade version script safely, task =>
    task = ⟨version, .up, safely || m.history.alwaysSafe, Script.statements script⟩
  | .downgrade version script safely, task =>
    task = ⟨version, .down, safely || m.history.alwaysSafe, Script.statements script⟩
  | _, task => ∃ scripts f, files.scriptFiles m.directory = .ok scripts ∧ f ∈ scripts ∧
    task = m.taskOf files f

/-- What is left of an operation once it has been prepared: attempts at the scripts, and an answer
that tells whether they succeeded.  Without scripts to run, a failure is handed on. -/
def Migrator.Carries (m : Migrator σ) (ctx : Context σ) (place : Part σ Recorder) (rows : σ → β)
    (x : Except Failure (List Task)) (t : σ) (r : Except Failure α) (u : σ) : Prop :=
  match x with
  | .error e => r = .error e ∧ u = t
  | .ok tasks => ∃ a, Attempts m ctx place rows tasks t a u ∧ r.isOk = a.isOk

/-- An action and its preparation begin with the same part. -/
theorem Migrator.carries_bind {γ : Type} {a : Action σ γ} {f : γ → Action σ α}
    {g : γ → Action σ (List Task)}
    (h : ∀ x t, (f x).Ends t
      (m.Carries ctx place rows ((g x).perform t).1 ((g x).perform t).2)) (s : σ) :
    (a >>= f).Ends s
      (m.Carries ctx place rows ((a >>= g).perform s).1 ((a >>= g).perform s).2) := by
  rcases ha : a.perform s with ⟨e | x, t⟩
  · rw [Action.Ends, Action.perform_bind_error ha, Action.perform_bind_error ha]
    exact ⟨rfl, rfl⟩
  · rw [Action.Ends, Action.perform_bind_ok ha, Action.perform_bind_ok ha]
    exact h x t

/-- The answer itself does not matter, only whether it is a failure. -/
theorem Migrator.Carries.discard {x : Except Failure (List Task)} {t u : σ}
    {r : Except Failure α} (h : m.Carries ctx place rows x t r u) :
    m.Carries ctx place rows x t (r.map fun _ => ()) u := by
  cases x with
  | error e =>
    obtain ⟨rfl, rfl⟩ := h
    exact ⟨rfl, rfl⟩
  | ok tasks =>
    obtain ⟨a, ha, hr⟩ := h
    refine ⟨a, ha, ?_⟩
    cases r with
    | error e => exact hr
    | ok y => exact hr

section
variable (hm : m.OnRecorder c driver place o rows) (files : Files)

section
include hm

/-- Before the scripts, the rows stay as they are, and nothing is prepared that was not asked
for. -/
theorem Migrator.consented_ends {asks : Task → Prop} {plan : Action σ Plan}
    (hplan : ∀ s, plan.Ends s (m.Planned files rows s))
    (hasks : ∀ scripts f, files.scriptFiles m.directory = .ok scripts → f ∈ scripts →
      asks (m.taskOf files f)) (s : σ) :
    (plan >>= fun p => m.consented files p).Ends s fun x t => rows t = rows s ∧
      ∀ tasks, x = .ok tasks → ∀ task ∈ tasks, asks task := by
  have none_asked {t : σ} (ht : rows t = rows s) : rows t = rows s ∧
      ∀ tasks, (.ok [] : Except Failure (List Task)) = .ok tasks →
        ∀ task ∈ tasks, asks task := by
    refine ⟨ht, ?_⟩
    rintro _ ⟨⟩ task htask
    exact absurd htask List.not_mem_nil
  refine .bind (hplan s) (fun e t h => ⟨h.1, nofun⟩) fun p t ⟨ht, hsteps⟩ => ?_
  rw [consented]
  split
  · exact none_asked ht
  · refine .keeps_bind (hm.confirm p) (fun e u hu => ⟨hu.trans ht, nofun⟩) fun answer u hu => ?_
    cases answer with
    | false => exact none_asked (hu.trans ht)
    | true =>
      refine ⟨hu.trans ht, ?_⟩
      rintro _ ⟨⟩ task htask
      obtain ⟨f, hf, rfl⟩ := List.mem_map.mp htask
      obtain ⟨scripts, hscripts, hmem⟩ := hsteps p rfl f hf
      exact hasks scripts f hscripts hmem

theorem Migrator.prepare_ends (op : Operation) (s : σ) :
    (m.prepare files ctx op).Ends s fun x t => rows t = rows s ∧
      ∀ tasks, x = .ok tasks → ∀ task ∈ tasks, m.Asks files op task := by
  cases op with
  | up limit =>
    exact consented_ends hm files (planUp_planned hm.quiet files limit)
      (fun scripts f h hf => ⟨scripts, f, h, hf, rfl⟩) s
  | down limit =>
    exact consented_ends hm files (planDown_planned hm.quiet files limit)
      (fun scripts f h hf => ⟨scripts, f, h, hf, rfl⟩) s
  | redo limit =>
    exact consented_ends hm files (planRedo_planned hm.quiet files limit)
      (fun scripts f h hf => ⟨scripts, f, h, hf, rfl⟩) s
  | moveTo version =>
    exact consented_ends hm files (planMove_planned hm.quiet files version)
      (fun scripts f h hf => ⟨scripts, f, h, hf, rfl⟩) s
  | upgrade version script safely =>
    refine .keeps_bind (hm.quiet.contains ctx version) (fun e t ht => ⟨ht, nofun⟩)
      fun known t ht => ?_
    cases known
    · refine ⟨ht, ?_⟩
      rintro _ ⟨⟩ task htask
      exact List.mem_singleton.mp htask
    · exact ⟨ht, nofun⟩
  | downgrade version script safely =>
    refine .keeps_bind (hm.quiet.contains ctx version) (fun e t ht => ⟨ht, nofun⟩)
      fun known t ht => ?_
    cases known
    · exact ⟨ht, nofun⟩
    · refine ⟨ht, ?_⟩
      rintro _ ⟨⟩ task htask
      exact List.mem_singleton.mp htask

end

variable (hctx : ctx.Outside place rows)
include hm hctx

theorem Migrator.proceed_attempts (total done : Nat) (summary : Summary)
    (fs : List MigrationFile) (s : σ) :
    (m.proceed files ctx total done summary fs).Ends s fun r u =>
      ∃ a, Attempts m ctx place rows (fs.map (m.taskOf files)) s a u ∧ r.isOk = a.isOk := by
  induction fs generalizing done summary s with
  | nil => exact ⟨_, .done, rfl⟩
  | cons f fs ih =>
    refine .bind (R := fun r t => ∃ a, Attempt m ctx place rows (m.taskOf files f) s a t ∧
      r = a.mapError (.migrationFailed f.version done total)) ?_ ?_ ?_
    · exact .mapFailure ⟨_, execute_attempt hm hctx files f s, rfl⟩
    · rintro e t ⟨_ | _, h, he⟩
      · exact ⟨_, .failed h, rfl⟩
      · cases he
    · rintro _ t ⟨_ | ⟨⟨⟩⟩, h, he⟩
      · cases he
      · exact (ih (done + 1) (summary.add f) t).mono fun r u ⟨a, hrest, hok⟩ =>
          ⟨a, .next h hrest, hok⟩

/-- A plan is carried out by attempts at its scripts, or not at all. -/
theorem Migrator.run_carries (p : Plan) (t : σ) :
    (m.run files ctx p).Ends t (m.Carries ctx place rows ((m.consented files p).perform t).1
      ((m.consented files p).perform t).2) := by
  rw [run, consented]
  split
  · exact ⟨_, .done, rfl⟩
  · refine carries_bind (fun answer u => ?_) t
    cases answer with
    | false => exact ⟨_, .done, rfl⟩
    | true => exact proceed_attempts hm files hctx _ 0 .empty p.steps u

theorem Migrator.planned_carries (plan : Action σ Plan) (s : σ) :
    ((plan >>= fun p => m.run files ctx p) >>= fun _ => pure ()).Ends s
      (m.Carries ctx place rows ((plan >>= fun p => m.consented files p).perform s).1
        ((plan >>= fun p => m.consented files p).perform s).2) := by
  have hrun := carries_bind (a := plan) (run_carries hm files hctx) s
  refine .bind hrun (fun e t h => ?_) fun summary t h => ?_
  · exact h.discard
  · exact h.discard

/-- A script that is given as a text is a single attempt. -/
theorem Migrator.text_carries (version : String) (direction : Direction) (safely : Bool)
    (statements : Except Failure (List String)) (t : σ) :
    (Action.ofExcept statements >>= fun statements => m.runScript ctx safely statements >>=
      fun _ => m.note ctx direction version).Ends t
      (m.Carries ctx place rows
        (.ok [⟨version, direction, safely || m.history.alwaysSafe, statements⟩]) t) := by
  refine (attempt_ends hm hctx version direction safely statements t).mono fun r u h => ?_
  refine ⟨r, ?_, rfl⟩
  cases r with
  | error e => exact .failed h
  | ok _ => exact .next h .done

theorem Migrator.operate_carries (op : Operation) (s : σ) :
    (m.operate files ctx op).Ends s (m.Carries ctx place rows
      ((m.prepare files ctx op).perform s).1 ((m.prepare files ctx op).perform s).2) := by
  cases op with
  | up limit => exact planned_carries hm files hctx _ s
  | down limit => exact planned_carries hm files hctx _ s
  | redo limit => exact planned_carries hm files hctx _ s
  | moveTo version => exact planned_carries hm files hctx _ s
  | upgrade version script safely =>
    refine carries_bind (fun known t => ?_) s
    cases known
    · exact text_carries hm hctx version .up safely _ t
    · exact ⟨rfl, rfl⟩
  | downgrade version script safely =>
    refine carries_bind (fun known t => ?_) s
    cases known
    · exact ⟨rfl, rfl⟩
    · exact text_carries hm hctx version .down safely _ t

/-- **A history changes after a script has run completely, and never otherwise.**  Whatever is
asked of the migrator, and however failures and cancellations come between the calls: what comes
before the scripts leaves the rows of the history alone, and the rest is one attempt after
another at the scripts that were asked for, up to the first that fails. -/
theorem Migrator.operate_attempts (op : Operation) (s : σ) :
    (m.prepare files ctx op).Ends s fun x t => rows t = rows s ∧
      (∀ tasks, x = .ok tasks → ∀ task ∈ tasks, m.Asks files op task) ∧
      (m.operate files ctx op).Ends s (m.Carries ctx place rows x t) := by
  obtain ⟨hrows, hasks⟩ := prepare_ends hm files op s
  exact ⟨hrows, hasks, operate_carries hm files hctx op s⟩

end

/-! ### A commit that fails -/

/-- A connection on a bench with faults in front of its recorder. -/
def Bench.faulty : Connection Bench :=
  connection (Fault.guard faultsPart (Recorder.backend .postgres recorderPart))

theorem Bench.migrator_onRecorder :
    (migrator faulty).OnRecorder faulty .postgres recorderPart (Fault.meet faultsPart)
      (·.memory.records) where
  backend := rfl
  obstacle := Fault.meet_keeps fun _ _ => rfl
  obstacle_rows := Fault.meet_keeps fun _ _ => rfl
  apart _ _ := rfl
  exec _ _ := ⟨id, (Action.mapFailure_id _).symm⟩
  transaction _ _ := rfl
  journal _ _ := .pure _
  journal_rows _ _ := .pure _
  confirm _ := .pure _
  quiet := {
    isCreated := fun _ => .bind (.read _) fun _ => .pure _
    create := fun _ _ => rfl
    list := fun _ _ => .bind (.read _) fun _ => .pure _
    contains := fun _ _ => .bind (.read _) fun _ => .pure _ }

/-- A bench on which no transaction can be committed. -/
def Bench.commitsLost : Bench := start [⟨Fault.commitText, .failure (.driver "lost"), none⟩]

/-- A safe script whose commit fails is rolled back and not noted. -/
theorem Migrator.operate_attempts_failed_commit :
    ((Bench.migrator Bench.faulty).prepare .empty (.ofToken .never)
      (.upgrade "210328_221600_a" "A; B" true)).Ends
      .commitsLost fun x t =>
        ((Bench.migrator Bench.faulty).operate .empty (.ofToken .never)
          (.upgrade "210328_221600_a" "A; B" true)).Ends
          .commitsLost fun r u =>
            (Bench.migrator Bench.faulty).Carries (.ofToken .never) Bench.recorderPart
              (·.memory.records) x t r u ∧
            u.memory.records = [] ∧ u.recorder.statements.map (·.text) = [] ∧
            u.recorder.rollbacks = 1 := by
  have hctx : (Context.ofToken .never).Outside Bench.recorderPart (·.memory.records) :=
    ⟨rfl, fun _ => rfl, fun _ => rfl⟩
  obtain ⟨-, -, hcarries⟩ := operate_attempts Bench.migrator_onRecorder .empty hctx
    (.upgrade "210328_221600_a" "A; B" true)
    .commitsLost
  exact ⟨hcarries, by decide +kernel, by decide +kernel, by decide +kernel⟩

end SchemaMigration
