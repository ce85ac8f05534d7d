import SchemaMigration.Proofs.HistoryListing
import SchemaMigration.Proofs.ScriptSteps
/-! # Runs of scripts

What the scripts of a plan do to a history, one after another.  A script either leaves the rows
of the history alone, or all its statements were sent and its change was made
(`Migrator.execute_noted`).  A run goes through the scripts that succeed and ends at the first one
that does not (`Migrator.Course`), whatever plan they come from: scripts that revert take the rows
of their versions away, and scripts that apply add a row for each of theirs.  Whether a script
succeeds is a matter of its steps (`Migrator.Course.step_iff`): its file, its statements with the
begin and the commit of a safe script, and its note. -/
namespace SchemaMigration

variable {σ : Type}

/-- The statements of a script, none if it cannot be read. -/
def MigrationFile.statementsOf (files : Files) (f : MigrationFile) : List String :=
  (f.statements files).toOption.getD []

namespace Migrator

/-- What a migrator needs of its history, its operator and its journal: the history writes to the
ledger, and the other two leave it alone. -/
structure Runs (m : Migrator σ) (l : Ledger σ) (serves : Context σ → Prop) : Prop where
  history : m.history.WritesTo l serves
  journal : ∀ level text, (m.journal level text).Keeps l.view
  confirm : ∀ p, (m.confirm p).Keeps l.view

variable {m : Migrator σ} {l : Ledger σ} {serves : Context σ → Prop} {files : Files}
variable {ctx : Context σ}

/-! ### One script -/

/-- A statement is told of and then sent. -/
theorem runStatement_sends (hjournal : ∀ level text, (m.journal level text).Keeps l.view)
    (hexec : ∀ text s, (m.history.exec ctx text []).Ends s (l.Sends text s)) (text : String)
    (s : σ) : (m.runStatement ctx text).Ends s (l.Sends text s) := by
  refine .keeps_bind (hjournal _ _) (fun e t ht => ?_) fun _ t ht => ?_
  · obtain ⟨hrows, hsent⟩ := Prod.mk.inj ht
    exact ⟨hrows, .inl hsent⟩
  · obtain ⟨hrows, hsent⟩ := Prod.mk.inj ht
    refine (hexec text t).mono fun r u hu => ?_
    unfold Ledger.Sends at hu
    rwa [hrows, hsent] at hu

theorem runStatement_ends (hm : m.Runs l serves) (hctx : serves ctx) (text : String) (s : σ) :
    (m.runStatement ctx text).Ends s (l.Sends text s) :=
  runStatement_sends hm.journal (hm.history.exec ctx hctx) text s

/-- What the statements of a script come to: they were sent in order, up to one that failed. -/
def SendsAll (l : Ledger σ) (statements : List String) (s : σ) (r : Except Failure Unit) (t : σ) :
    Prop :=
  l.rows t = l.rows s ∧ ∃ j, l.sent t = l.sent s ++ statements.take j ∧
    (r = .ok () → j = statements.length)

theorem SendsAll.nothing {l : Ledger σ} {s t : σ} {statements : List String} {e : Failure}
    (h : l.view t = l.view s) : SendsAll l statements s (.error e) t := by
  obtain ⟨hrows, hsent⟩ := Prod.mk.inj h
  exact ⟨hrows, 0, by rw [hsent, List.take_zero, List.append_nil], nofun⟩

theorem forM_runStatement_ends (hm : m.Runs l serves) (hctx : serves ctx)
    (statements : List String) (s : σ) :
    (statements.forM (m.runStatement ctx)).Ends s (SendsAll l statements s) := by
  induction statements generalizing s with
  | nil => exact ⟨rfl, 0, (List.append_nil _).symm, fun _ => rfl⟩
  | cons text rest ih =>
    refine .bind (runStatement_ends hm hctx text s) (fun e t ⟨hrows, hsent⟩ => ?_)
      fun _ t ⟨hrows, hsent⟩ => (ih t).mono fun r u ⟨hrows', j, hsent', hok⟩ => ?_
    · -- the statement that failed may have been sent
      rcases hsent with hsent | hsent
      · exact .nothing (Prod.ext hrows hsent)
      · exact ⟨hrows, 1, hsent, nofun⟩
    · refine ⟨hrows'.trans hrows, j + 1, ?_, fun hr => ?_⟩
      · rw [hsent', hsent, List.take_succ_cons, List.append_assoc, List.singleton_append]
      · rw [hok hr, List.length_cons]

/-- Whether in a transaction or not, a script sends its statements in order and leaves the rows
alone. -/
theorem runScript_ends (hm : m.Runs l serves) (hctx : serves ctx) (safely : Bool)
    (statements : List String) (s : σ) :
    (m.runScript ctx safely statements).Ends s (SendsAll l statements s) := by
  rw [runScript]
  split
  · refine (hm.history.transaction ctx hctx _ s).mono fun r t h => ?_
    rcases h with ⟨e, rfl, ht⟩ | ⟨_, u, x, v, ⟨inner, hinner, rfl⟩, hu, hbody, hv, hr⟩
    · exact .nothing ht
    · have hends := forM_runStatement_ends hm hinner statements u
      rw [Action.Ends, hbody] at hends
      obtain ⟨hrows, j, hsent, hok⟩ := hends
      obtain ⟨hrowsu, hsentu⟩ := Prod.mk.inj hu
      obtain ⟨hrowsv, hsentv⟩ := Prod.mk.inj hv
      exact ⟨hrowsv.trans (hrows.trans hrowsu), j, by rw [hsentv, hsent, hsentu],
        fun h => hok (hr h)⟩
  · exact forM_runStatement_ends hm hctx statements s

/-- **One script of a plan**, whose note makes a change to the rows or fails and leaves them alone.
If the script succeeds, its statements have been sent and the change was made.  If it fails, the
rows are those from before. -/
theorem execute_noted (hm : m.Runs l serves) (hctx : serves ctx) (f : MigrationFile)
    (change : Multiset Applied → Multiset Applied → Prop)
    (hnote : ∀ t, (m.note ctx f.direction f.version).Ends t fun r u => l.sent u = l.sent t ∧
      match r with
      | .ok _ => change (l.rows t) (l.rows u)
      | .error _ => l.rows u = l.rows t) (s : σ) :
    (m.execute files ctx f).Ends s fun r t => match r with
      | .ok _ => change (l.rows s) (l.rows t) ∧ l.sent t = l.sent s ++ f.statementsOf files
      | .error _ => l.rows t = l.rows s ∧
          ∃ j, l.sent t = l.sent s ++ (f.statementsOf files).take j := by
  rw [execute, MigrationFile.statementsOf]
  cases f.statements files with
  | error e => exact ⟨rfl, 0, (List.append_nil _).symm⟩
  | ok statements =>
    show ((m.runScript ctx f.safely statements) >>= fun _ => _).Ends s _
    refine .bind (runScript_ends hm hctx f.safely statements s) ?_ ?_
    · exact fun e t ⟨hrows, j, hsent, _⟩ => ⟨hrows, j, hsent⟩
    · rintro _ t ⟨hrows, j, hsent, hok⟩
      rw [hok rfl, List.take_length] at hsent
      refine (hnote t).mono fun r u ⟨hsentu, hu⟩ => ?_
      rw [hrows] at hu
      cases r with
      | ok _ => exact ⟨hu, hsentu.trans hsent⟩
      | error _ =>
        refine ⟨hu, statements.length, ?_⟩
        rw [hsentu, hsent]
        exact congrArg _ (List.take_length).symm

/-- A script that applies adds a row for its version. -/
theorem execute_ends (hm : m.Runs l serves) (hctx : serves ctx) {f : MigrationFile}
    (hup : f.direction = .up) (s : σ) :
    (m.execute files ctx f).Ends s fun r t => match r with
      | .ok _ => (∃ time, l.rows t = ⟨f.version, time⟩ ::ₘ l.rows s) ∧
          l.sent t = l.sent s ++ f.statementsOf files
      | .error _ => l.rows t = l.rows s ∧
          ∃ j, l.sent t = l.sent s ++ (f.statementsOf files).take j := by
  refine execute_noted hm hctx f
    (fun before after => ∃ time, after = ⟨f.version, time⟩ ::ₘ before) (fun t => ?_) s
  rw [show m.note ctx f.direction f.version = m.history.insert ctx f.version by rw [hup]; rfl]
  exact hm.history.insert ctx hctx f.version t

/-- A script that reverts takes the rows of its version away. -/
theorem execute_down_ends (hm : m.Runs l serves) (hh : m.history.Tracks l serves)
    (hctx : serves ctx) {f : MigrationFile} (hdown : f.direction = .down) (s : σ) :
    (m.execute files ctx f).Ends s fun r t => match r with
      | .ok _ => l.rows t = (l.rows s).filter (·.version ≠ f.version) ∧
          l.sent t = l.sent s ++ f.statementsOf files
      | .error _ => l.rows t = l.rows s ∧
          ∃ j, l.sent t = l.sent s ++ (f.statementsOf files).take j := by
  refine execute_noted hm hctx f
    (fun before after => after = before.filter (·.version ≠ f.version)) (fun t => ?_) s
  rw [show m.note ctx f.direction f.version = m.history.remove ctx f.version by rw [hdown]; rfl]
  exact hh.remove ctx hctx f.version t

/-- In either direction, a script that succeeds has sent its statements, and one that fails leaves
the rows alone. -/
theorem execute_sends (hm : m.Runs l serves) (hh : m.history.Tracks l serves) (hctx : serves ctx)
    (f : MigrationFile) (s : σ) :
    (m.execute files ctx f).Ends s fun r t => match r with
      | .ok _ => l.sent t = l.sent s ++ f.statementsOf files
      | .error _ => l.rows t = l.rows s ∧
          ∃ j, l.sent t = l.sent s ++ (f.statementsOf files).take j := by
  cases hdirection : f.direction with
  | up =>
    refine (execute_ends hm hctx hdirection s).mono fun r t h => ?_
    cases r with
    | ok _ => exact h.2
    | error e => exact h
  | down =>
    refine (execute_down_ends hm hh hctx hdirection s).mono fun r t h => ?_
    cases r with
    | ok _ => exact h.2
    | error e => exact h

/-! ### One script after another -/

/-- The scripts succeed one after another and lead from a state to another. -/
inductive Course (m : Migrator σ) (files : Files) (ctx : Context σ) :
    σ → List MigrationFile → σ → Prop
  | done {s} : Course m files ctx s [] s
  | step {s t u f rest} (h : (m.execute files ctx f).perform s = (.ok (), t))
      (hrest : Course m files ctx t rest u) : Course m files ctx s (f :: rest) u

/-- A course begins with a script exactly if each step of the script succeeds: its file is read, it
runs to its end and it is noted.  Where a script fails, one of these steps does
(`execute_error_iff`). -/
theorem Course.step_iff {c : Connection σ} (htransaction : m.history.transaction = c.transaction)
    {s u : σ} {f : MigrationFile} {rest : List MigrationFile} :
    Course m files ctx s (f :: rest) u ↔
      ∃ statements v t, f.statements files = .ok statements ∧
        Completes m c ctx statements (f.safely || m.history.alwaysSafe) s v ∧
        (m.note ctx f.direction f.version).perform v = (.ok (), t) ∧
        Course m files ctx t rest u := by
  constructor
  · rintro (_ | ⟨hf, hrest⟩)
    obtain ⟨statements, v, hread, hrun, hnote⟩ := (execute_ok_iff htransaction).mp hf
    exact ⟨statements, v, _, hread, hrun, hnote, hrest⟩
  · rintro ⟨statements, v, t, hread, hrun, hnote, hrest⟩
    exact .step ((execute_ok_iff htransaction).mpr ⟨statements, v, hread, hrun, hnote⟩) hrest

/-- Scripts that apply add a row for each of their versions, and their statements are sent. -/
theorem Course.applies (hm : m.Runs l serves) (hctx : serves ctx) {s t : σ}
    {fs : List MigrationFile} (hup : ∀ f ∈ fs, f.direction = .up)
    (h : Course m files ctx s fs t) :
    (∃ again : List Applied, again.map (·.version) = fs.map (·.version) ∧
      l.rows t = again + l.rows s) ∧
      l.sent t = l.sent s ++ fs.flatMap (·.statementsOf files) := by
  induction h with
  | done => exact ⟨⟨[], rfl, (Multiset.zero_add _).symm⟩, (List.append_nil _).symm⟩
  | @step s t u f rest h _ ih =>
    have hf : (m.execute files ctx f).Ends s _ :=
      execute_ends hm hctx (hup f List.mem_cons_self) s
    rw [Action.Ends, h] at hf
    -- the first script adds its row, the rest adds theirs to what it left
    obtain ⟨⟨time, hrows⟩, hsent⟩ := hf
    obtain ⟨⟨again, hversions, hrows'⟩, hsent'⟩ := ih fun g hg => hup g (List.mem_cons_of_mem _ hg)
    refine ⟨⟨⟨f.version, time⟩ :: again, ?_, ?_⟩, ?_⟩
    · rw [List.map_cons, List.map_cons, hversions]
    · rw [hrows', hrows, Multiset.add_cons, ← Multiset.cons_coe, Multiset.cons_add]
    · rw [hsent', hsent, List.flatMap_cons, List.append_assoc]

/-- After scripts that succeed, the history has their versions and their statements are sent. -/
theorem Course.ends (hm : m.Runs l serves) (hctx : serves ctx) {s t : σ}
    {fs : List MigrationFile} (hup : ∀ f ∈ fs, f.direction = .up)
    (h : Course m files ctx s fs t) :
    l.versions t = l.versions s + fs.map (·.version) ∧
      l.sent t = l.sent s ++ fs.flatMap (·.statementsOf files) := by
  obtain ⟨⟨again, hversions, hrows⟩, hsent⟩ := h.applies hm hctx hup
  refine ⟨?_, hsent⟩
  rw [Ledger.versions, hrows, Multiset.map_add, Multiset.map_coe, hversions, Multiset.add_comm]
  rfl

/-- Scripts that revert take the rows of their versions away. -/
theorem Course.reverts (hm : m.Runs l serves) (hh : m.history.Tracks l serves) (hctx : serves ctx)
    {s t : σ} {fs : List MigrationFile} (hdown : ∀ f ∈ fs, f.direction = .down)
    (h : Course m files ctx s fs t) :
    l.rows t = (l.rows s).filter (·.version ∉ fs.map (·.version)) := by
  induction h with
  | done => exact (Multiset.filter_eq_self.mpr fun _ _ => List.not_mem_nil).symm
  | @step s t u f rest h _ ih =>
    have hf : (m.execute files ctx f).Ends s _ :=
      execute_down_ends hm hh hctx (hdown f List.mem_cons_self) s
    rw [Action.Ends, h] at hf
    rw [ih fun g hg => hdown g (List.mem_cons_of_mem _ hg), hf.1, Multiset.filter_filter]
    refine Multiset.filter_congr fun a _ => ?_
    rw [List.map_cons, List.mem_cons, not_or, and_comm]

theorem Course.sent (hm : m.Runs l serves) (hh : m.history.Tracks l serves) (hctx : serves ctx)
    {s t : σ} {fs : List MigrationFile} (h : Course m files ctx s fs t) :
    l.sent t = l.sent s ++ fs.flatMap (·.statementsOf files) := by
  induction h with
  | done => exact (List.append_nil _).symm
  | @step s t u f rest h _ ih =>
    have hf : (m.execute files ctx f).Ends s _ := execute_sends hm hh hctx f s
    rw [Action.Ends, h] at hf
    rw [ih, hf, List.flatMap_cons, List.append_assoc]

/-- A course goes through the first scripts and then through the others. -/
theorem Course.split {s u : σ} {fs gs : List MigrationFile}
    (h : Course m files ctx s (fs ++ gs) u) :
    ∃ t, Course m files ctx s fs t ∧ Course m files ctx t gs u := by
  induction fs generalizing s with
  | nil => exact ⟨s, .done, h⟩
  | cons f fs ih =>
    cases h with
    | step hf hrest =>
      obtain ⟨t, hfs, hgs⟩ := ih hrest
      exact ⟨t, .step hf hfs, hgs⟩

theorem foldl_add_ups {fs : List MigrationFile} (hup : ∀ f ∈ fs, f.direction = .up)
    (summary : Summary) :
    fs.foldl Summary.add summary =
      { summary with applied := summary.applied ++ fs.map (·.version) } := by
  induction fs generalizing summary with
  | nil => simp
  | cons f fs ih =>
    rw [List.foldl_cons, ih fun g hg => hup g (List.mem_cons_of_mem _ hg), Summary.add,
      hup f List.mem_cons_self]
    simp

theorem foldl_add_downs {fs : List MigrationFile} (hdown : ∀ f ∈ fs, f.direction = .down)
    (summary : Summary) :
    fs.foldl Summary.add summary =
      { summary with reverted := summary.reverted ++ fs.map (·.version) } := by
  induction fs generalizing summary with
  | nil => simp
  | cons f fs ih =>
    rw [List.foldl_cons, ih fun g hg => hdown g (List.mem_cons_of_mem _ hg), Summary.add,
      hdown f List.mem_cons_self]
    simp

/-- A run goes on after scripts that succeed. -/
theorem proceed_of_course {s t : σ} {fs : List MigrationFile} (h : Course m files ctx s fs t)
    (total done : Nat) (summary : Summary) (rest : List MigrationFile) :
    (m.proceed files ctx total done summary (fs ++ rest)).perform s =
      (m.proceed files ctx total (done + fs.length) (fs.foldl Summary.add summary) rest).perform
        t := by
  induction h generalizing done summary with
  | done => rfl
  | @step s t u f fs h _ ih =>
    rw [List.cons_append, proceed, Action.perform_bind_ok (x := ()) (t := t), ih]
    · rw [List.length_cons, List.foldl_cons, Nat.add_right_comm, Nat.add_assoc]
    · rw [Action.perform_mapFailure, h]
      rfl

/-- A run of scripts that all succeed. -/
theorem proceed_of_complete {s t : σ} {fs : List MigrationFile} (h : Course m files ctx s fs t) :
    (m.proceed files ctx fs.length 0 .empty fs).perform s =
      (.ok (fs.foldl Summary.add .empty), t) := by
  have hrun := proceed_of_course h fs.length 0 .empty []
  rwa [List.append_nil] at hrun

/-- A run of scripts of which `f` is the first one that fails. -/
theorem proceed_of_stopped {s t u : σ} {fs before rest : List MigrationFile} {f : MigrationFile}
    {e : Failure} (hfs : fs = before ++ f :: rest) (h : Course m files ctx s before t)
    (hf : (m.execute files ctx f).perform t = (.error e, u)) :
    (m.proceed files ctx fs.length 0 .empty fs).perform s =
      (.error (.migrationFailed f.version before.length fs.length e), u) := by
  have hmap : (Action.mapFailure (.migrationFailed f.version (0 + before.length) fs.length)
      (m.execute files ctx f)).perform t =
      (.error (.migrationFailed f.version (0 + before.length) fs.length e), u) := by
    rw [Action.perform_mapFailure, hf]
    rfl
  have hrun := proceed_of_course h fs.length 0 .empty (f :: rest)
  rwa [← hfs, proceed, Action.perform_bind_error hmap, Nat.zero_add] at hrun

/-- A run of scripts gets to the end, or to the first script that fails. -/
theorem course_or_failure (m : Migrator σ) (files : Files) (ctx : Context σ) (s : σ)
    (fs : List MigrationFile) :
    (∃ t, Course m files ctx s fs t) ∨
      ∃ before f after t e u, fs = before ++ f :: after ∧ Course m files ctx s before t ∧
        (m.execute files ctx f).perform t = (.error e, u) := by
  induction fs generalizing s with
  | nil => exact .inl ⟨s, .done⟩
  | cons f fs ih =>
    rcases h : (m.execute files ctx f).perform s with ⟨e | ⟨⟨⟩⟩, t⟩
    · exact .inr ⟨[], f, fs, s, e, t, rfl, .done, h⟩
    · rcases ih t with ⟨u, hu⟩ | ⟨before, g, after, u, e, v, rfl, hu, hg⟩
      · exact .inl ⟨u, .step h hu⟩
      · exact .inr ⟨f :: before, g, after, u, e, v, rfl, .step h hu, hg⟩

/-- A run of scripts that succeeds went through all of them. -/
theorem course_of_proceed_ok {s u : σ} {fs : List MigrationFile} {summary : Summary}
    (h : (m.proceed files ctx fs.length 0 .empty fs).perform s = (.ok summary, u)) :
    Course m files ctx s fs u ∧ summary = fs.foldl Summary.add .empty := by
  rcases course_or_failure m files ctx s fs with ⟨t, ht⟩ | ⟨before, f, after, t, e, v, hfs, ht, hf⟩
  · rw [proceed_of_complete ht] at h
    cases h
    exact ⟨ht, rfl⟩
  · rw [proceed_of_stopped hfs ht hf] at h
    cases h

/-- The state in which the scripts of a plan start to run: an operator is asked unless there is
nothing to do. -/
def agreed (m : Migrator σ) (p : Plan) (s : σ) : σ :=
  if p.isEmpty then s else ((m.confirm p).perform s).2

theorem Runs.view_agreed (hm : m.Runs l serves) (p : Plan) (s : σ) :
    l.view (m.agreed p s) = l.view s := by
  rw [agreed]
  split
  · rfl
  · exact hm.confirm p s

/-- The plan is empty, or there is no operator, or the operator says yes. -/
def Agrees (m : Migrator σ) (p : Plan) (s : σ) : Prop :=
  p.isEmpty = false → ((m.confirm p).perform s).1 = .ok true

/-- With an operator who agrees, a plan is carried out script by script. -/
theorem run_eq_proceed {p : Plan} {s : σ} (hagrees : m.Agrees p s) :
    (m.run files ctx p).perform s =
      (m.proceed files ctx p.steps.length 0 .empty p.steps).perform (m.agreed p s) := by
  rw [run, agreed]
  by_cases h : p.isEmpty
  · obtain ⟨hdowns, hups⟩ : p.downs = [] ∧ p.ups = [] := by simpa [Plan.isEmpty] using h
    rw [if_pos h, if_pos h, Plan.steps, hdowns, hups]
    rfl
  · have hconfirm : (m.confirm p).perform s = (.ok true, ((m.confirm p).perform s).2) :=
      Prod.ext (hagrees (Bool.not_eq_true _ ▸ h)) rfl
    rw [if_neg h, if_neg h]
    exact Action.perform_bind_ok hconfirm

/-- A plan that is declined is not carried out. -/
theorem run_of_declined {p : Plan} {s u : σ} (hempty : p.isEmpty = false)
    (hconfirm : (m.confirm p).perform s = (.ok false, u)) :
    (m.run files ctx p).perform s = (.ok ⟨[], [], true⟩, u) := by
  rw [run, if_neg (by simp [hempty]), Action.perform_bind_ok hconfirm]
  rfl

/-- A run that is not declined has the operator's consent. -/
theorem agrees_of_run {p : Plan} {s u : σ} {summary : Summary}
    (h : (m.run files ctx p).perform s = (.ok summary, u)) (hdeclined : summary.declined = false) :
    m.Agrees p s := by
  intro hempty
  rw [run, if_neg (by simp [hempty])] at h
  rcases hconfirm : (m.confirm p).perform s with ⟨e | answer, t⟩
  · rw [Action.perform_bind_error hconfirm] at h
    cases h
  · rw [Action.perform_bind_ok hconfirm] at h
    cases answer with
    | true => rfl
    | false =>
      cases h
      cases hdeclined

/-- A run that ends well without the operator's consent was declined. -/
theorem declined_of_run_ok {p : Plan} {s u : σ} {summary : Summary} (hnot : ¬m.Agrees p s)
    (h : (m.run files ctx p).perform s = (.ok summary, u)) :
    summary = ⟨[], [], true⟩ ∧ (m.confirm p).perform s = (.ok false, u) := by
  obtain ⟨hempty, hanswer⟩ := Classical.not_imp.mp hnot
  rcases hconfirm : (m.confirm p).perform s with ⟨e | answer, t⟩
  · rw [run, if_neg (by simp [hempty]), Action.perform_bind_error hconfirm] at h
    cases h
  · cases answer with
    | true =>
      rw [hconfirm] at hanswer
      exact absurd rfl hanswer
    | false =>
      rw [run_of_declined hempty hconfirm] at h
      cases h
      exact ⟨rfl, rfl⟩

/-- A run that ends well went through all scripts, or it was declined. -/
theorem course_of_run_ok {p : Plan} {s u : σ} {summary : Summary}
    (h : (m.run files ctx p).perform s = (.ok summary, u)) :
    (summary = p.steps.foldl Summary.add .empty ∧ Course m files ctx (m.agreed p s) p.steps u) ∨
      summary = ⟨[], [], true⟩ ∧ (m.confirm p).perform s = (.ok false, u) := by
  by_cases hagrees : m.Agrees p s
  · rw [run_eq_proceed hagrees] at h
    obtain ⟨hcourse, hsummary⟩ := course_of_proceed_ok h
    exact .inl ⟨hsummary, hcourse⟩
  · exact .inr (declined_of_run_ok hagrees h)

end Migrator

/-! ### Runs on a bench -/

/-- A connection on a bench that tells of the statements it is sent. -/
def Bench.telling : Connection Bench :=
  connection ((Recorder.backend .postgres recorderPart).heard fun text =>
    heardPart.change (· ++ [text]))

/-- A bench whose history holds versions, the oldest first. -/
def Bench.holding (versions : List String) : Bench :=
  { Bench.start [] with memory := .ofVersions versions }

theorem Bench.migrator_runs :
    (migrator telling).Runs (Memory.ledger memoryPart heardPart) telling.Serves where
  history := Memory.history_writesTo rfl (fun _ _ => rfl)
    (Recorder.backend_keeps fun _ _ => rfl) (fun _ _ => rfl) false []
  journal _ _ := .pure _
  confirm _ := .pure _

theorem Bench.migrator_tracks :
    (migrator telling).history.Tracks (Memory.ledger memoryPart heardPart) telling.Serves :=
  Memory.history_tracks (fun _ _ => rfl) telling false [] telling.Serves

end SchemaMigration
