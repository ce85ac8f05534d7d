import SchemaMigration.Proofs.Planning
import SchemaMigration.Proofs.ScriptRuns
/-! # The progress of a run

How far a run of `up` gets, and what the history, the statements that were sent and the answer say
of it: progress, history and statements agree wherever it stops (`Migrator.up_progress`). -/
namespace SchemaMigration

variable {σ : Type}

namespace Migrator

variable {m : Migrator σ} {l : Ledger σ} {serves : Context σ → Prop} {files : Files}
variable {ctx : Context σ}

/-- How a run of scripts from a state ends, by whether they succeed: the answer, the versions in
the history and the statements that were sent. -/
structure Progress (m : Migrator σ) (l : Ledger σ) (files : Files) (ctx : Context σ) (s : σ)
    (plan : List MigrationFile) (r : Except Failure Summary) (v : σ) : Prop where
  /-- All scripts succeed. -/
  complete : ∀ u, Course m files ctx s plan u →
    r = .ok ⟨[], plan.map (·.version), false⟩ ∧ v = u ∧
    l.versions v = l.versions s + plan.map (·.version) ∧
    l.sent v = l.sent s ++ plan.flatMap (·.statementsOf files)
  /-- `f` is the first script that fails. -/
  stopped : ∀ before f after u e w, plan = before ++ f :: after →
    Course m files ctx s before u → (m.execute files ctx f).perform u = (.error e, w) →
    r = .error (.migrationFailed f.version before.length plan.length e) ∧ v = w ∧
    l.versions v = l.versions s + before.map (·.version) ∧
    ∃ j, l.sent v = l.sent s ++ before.flatMap (·.statementsOf files) ++
      (f.statementsOf files).take j
  /-- There is no third way. -/
  total : (∃ u, Course m files ctx s plan u) ∨
    ∃ before f after u e w, plan = before ++ f :: after ∧ Course m files ctx s before u ∧
      (m.execute files ctx f).perform u = (.error e, w)

theorem proceed_progress (hm : m.Runs l serves) (hctx : serves ctx) {plan : List MigrationFile}
    (hup : ∀ f ∈ plan, f.direction = .up) (s : σ) :
    (m.proceed files ctx plan.length 0 .empty plan).Ends s
      (Progress m l files ctx s plan) where
  complete u h := by
    obtain ⟨hversions, hsent⟩ := h.ends hm hctx hup
    rw [proceed_of_complete h, foldl_add_ups hup]
    exact ⟨rfl, rfl, hversions, hsent⟩
  stopped before f after u e w hplan h hf := by
    obtain ⟨hversions, hsent⟩ := h.ends hm hctx fun g hg =>
      hup g (hplan ▸ List.mem_append_left _ hg)
    -- the script that failed leaves the rows as the scripts before it did
    have hends : (m.execute files ctx f).Ends u _ :=
      execute_ends hm hctx (hup f (by simp [hplan])) u
    rw [Action.Ends, hf] at hends
    obtain ⟨hrows, j, hsent'⟩ := hends
    rw [proceed_of_stopped hplan h hf]
    refine ⟨rfl, rfl, ?_, j, by rw [hsent', hsent]⟩
    rw [← hversions, Ledger.versions, hrows, Ledger.versions]
  total := course_or_failure m files ctx s plan

/-! ### The plan -/

/-- The scripts that are left to apply: the scripts of the directory that apply a version that
the history does not have, in ascending order. -/
structure Outstanding (l : Ledger σ) (files : Files) (directory : String) (s : σ)
    (fs : List MigrationFile) : Prop where
  ascending : Catalog.Ascending fs
  mem : ∀ f, f ∈ fs ↔ (∃ scripts, files.scriptFiles directory = .ok scripts ∧ f ∈ scripts) ∧
    f.direction = .up ∧ f.version ∉ l.versions s

theorem allApplied_ends (hm : m.Runs l serves) (hctx : serves ctx) (s : σ) :
    (m.allApplied ctx).Ends s fun r t => l.view t = l.view s ∧
      ∀ applied : List Applied, r = .ok applied → (applied : Multiset Applied) = l.rows s := by
  have htable : (m.ensureTable ctx).Keeps l.view :=
    ensureTable_keeps (hm.history.isCreated ctx hctx) (hm.history.create ctx hctx)
  refine .keeps_bind htable (fun _ _ ht => ⟨ht, nofun⟩) fun _ t ht => ?_
  refine (hm.history.list ctx hctx t).mono fun r u ⟨hu, hrows⟩ => ⟨hu.trans ht, ?_⟩
  exact fun applied hr => (hrows applied hr).trans (Prod.mk.inj ht).1

theorem pending_outstanding {catalog : Catalog} {directory : String}
    (hscan : files.catalog directory = .ok catalog) {applied : List Applied} {s : σ}
    (happlied : (applied : Multiset Applied) = l.rows s) :
    Outstanding l files directory s (Plan.pending catalog applied) := by
  obtain ⟨scripts, hscripts, hholds⟩ := Files.catalog_holds hscan
  refine ⟨(hholds.ascending .up).filter _, fun f => ?_⟩
  have hversion : (applied.any fun a => a.version == f.version) = true ↔
      f.version ∈ l.versions s := by
    rw [Ledger.versions, ← happlied, List.any_eq_true]
    simp
  rw [Plan.pending, List.mem_filter, show f ∈ catalog.ups ↔ _ from hholds.mem .up f, and_assoc,
    Bool.not_eq_true', ← Bool.not_eq_true, hversion, hscripts]
  simp

/-- Planning leaves history and statements alone.  It fails only if the history does. -/
theorem planUp_ends (hm : m.Runs l serves) (hctx : serves ctx) {catalog : Catalog}
    (hscan : files.catalog m.directory = .ok catalog) (limit : Limit) (s : σ) :
    (m.planUp files ctx limit).Ends s fun r t => l.view t = l.view s ∧
      match r with
      | .error e => (m.allApplied ctx).perform s = (.error e, t)
      | .ok p => p.downs = [] ∧ ∃ pending, Outstanding l files m.directory s pending ∧
          p.ups = limit.truncate pending := by
  have happlied := allApplied_ends hm hctx s
  rw [planUp, hscan]
  refine .bind (R := fun r t => (m.allApplied ctx).perform s = (r, t) ∧ l.view t = l.view s ∧
    ∀ applied : List Applied, r = .ok applied → (applied : Multiset Applied) = l.rows s)
    ⟨rfl, happlied⟩ ?_ ?_
  · rintro e t ⟨h, ht, -⟩
    exact ⟨ht, h⟩
  · rintro applied t ⟨-, ht, hrows⟩
    exact ⟨ht, rfl, _, pending_outstanding hscan (hrows applied rfl), rfl⟩

/-- What `up` does after its plan has been made. -/
theorem up_of_planUp (hm : m.Runs l serves) (hctx : serves ctx) {limit : Limit} {s t : σ}
    {p : Plan} {pending : List MigrationFile}
    (hplan : (m.planUp files ctx limit).perform s = (.ok p, t)) (hagrees : m.Agrees p t)
    (hdowns : p.downs = []) (hpending : Outstanding l files m.directory s pending)
    (hups : p.ups = limit.truncate pending) :
    (m.up files ctx limit).Ends s (Progress m l files ctx (m.agreed p t) p.ups) := by
  have hsteps : p.steps = p.ups := by rw [Plan.steps, hdowns, List.nil_append]
  have hup : ∀ f ∈ p.ups, f.direction = .up := fun f hf =>
    ((hpending.mem f).mp (Limit.mem_of_mem_truncate (hups ▸ hf))).2.1
  rw [Action.Ends, up, Action.perform_bind_ok hplan, run_eq_proceed hagrees, hsteps]
  exact proceed_progress hm hctx hup _

/-- A version that the first of two runs has applied is not outstanding for the second. -/
theorem Outstanding.eq_nil {s u : σ} {directory : String} {fs fs' : List MigrationFile}
    (h : Outstanding l files directory s fs)
    (hversions : l.versions u = l.versions s + fs.map (·.version))
    (h' : Outstanding l files directory u fs') : fs' = [] := by
  refine List.eq_nil_iff_forall_not_mem.mpr fun f hf => ?_
  obtain ⟨hscripts, hup, hnew⟩ := (h'.mem f).mp hf
  rw [hversions, Multiset.mem_add, not_or] at hnew
  refine hnew.2 (Multiset.mem_coe.mpr (List.mem_map_of_mem ?_))
  exact (h.mem f).mpr ⟨hscripts, hup, hnew.1⟩

/-- A successful run without a limit has applied everything that was outstanding. -/
theorem up_all_ok (hm : m.Runs l serves) (hctx : serves ctx) {catalog : Catalog}
    (hscan : files.catalog m.directory = .ok catalog) {s u : σ} {summary : Summary}
    (h : (m.up files ctx .all).perform s = (.ok summary, u))
    (hdeclined : summary.declined = false) :
    ∃ pending, Outstanding l files m.directory s pending ∧
      l.versions u = l.versions s + pending.map (·.version) := by
  have hends := planUp_ends hm hctx hscan .all s
  rcases hplan : (m.planUp files ctx .all).perform s with ⟨e | p, t⟩
  · rw [up, Action.perform_bind_error hplan] at h
    cases h
  · rw [Action.Ends, hplan] at hends
    obtain ⟨ht, hdowns, pending, hpending, hups⟩ := hends
    have hagrees : m.Agrees p t := by
      rw [up, Action.perform_bind_ok hplan] at h
      exact agrees_of_run h hdeclined
    have hprogress := up_of_planUp hm hctx hplan hagrees hdowns hpending hups
    rw [Action.Ends, h] at hprogress
    -- a run that stopped would have answered with a failure, so all scripts succeeded
    have hview := (Prod.mk.inj ((hm.view_agreed p t).trans ht)).1
    rcases hprogress.total with ⟨v, hv⟩ | ⟨before, f, after, v, e, w, hparts, hv, hf⟩
    · obtain ⟨-, -, hversions, -⟩ := hprogress.complete v hv
      refine ⟨pending, hpending, ?_⟩
      rw [hversions, Ledger.versions, hview, hups]
      rfl
    · obtain ⟨hr, -⟩ := hprogress.stopped before f after v e w hparts hv hf
      cases hr

/-- **The progress of `up`**, over every directory that can be read, every history, every limit
and every way in which scripts, statements, commits and insertions succeed or fail:

* The plan is what is outstanding, up to the limit.  Making it changes nothing, and if it cannot
  be made, nothing is done.
* If the operator agrees, or there is none, the run ends as `Progress` says.  If all scripts
  succeed, the summary has the versions of the plan, and the history has them besides those it
  had.  At the first script that fails, the failure counts the scripts before it, the history has
  their versions, and no statement of a later script has been sent.
* After a successful run without a limit, a further one does nothing. -/
theorem up_progress (hm : m.Runs l serves) (hctx : serves ctx) {catalog : Catalog}
    (hscan : files.catalog m.directory = .ok catalog) (limit : Limit) (s : σ) :
    (match (m.planUp files ctx limit).perform s with
      | (.error e, t) => (m.allApplied ctx).perform s = (.error e, t) ∧
          (m.up files ctx limit).perform s = (.error e, t) ∧ l.view t = l.view s
      | (.ok p, t) => l.view (m.agreed p t) = l.view s ∧
          (∃ pending, Outstanding l files m.directory s pending ∧
            p.ups = limit.truncate pending) ∧
          (m.Agrees p t →
            (m.up files ctx limit).Ends s (Progress m l files ctx (m.agreed p t) p.ups))) ∧
    ∀ summary u ctx', (m.up files ctx .all).perform s = (.ok summary, u) →
      summary.declined = false → serves ctx' →
      (m.up files ctx' .all).Ends u fun r v => l.view v = l.view u ∧
        (r = .ok .empty ∨ ∃ e, r = .error e ∧ (m.allApplied ctx').perform u = (.error e, v)) := by
  constructor
  · have hends := planUp_ends hm hctx hscan limit s
    rcases hplan : (m.planUp files ctx limit).perform s with ⟨e | p, t⟩ <;>
      rw [Action.Ends, hplan] at hends
    · exact ⟨hends.2, Action.perform_bind_error hplan, hends.1⟩
    · obtain ⟨ht, hdowns, pending, hpending, hups⟩ := hends
      exact ⟨(hm.view_agreed p t).trans ht, ⟨pending, hpending, hups⟩,
        fun hagrees => up_of_planUp hm hctx hplan hagrees hdowns hpending hups⟩
  · intro summary u ctx' h hdeclined hctx'
    obtain ⟨done, hdone, hversions⟩ := up_all_ok hm hctx hscan h hdeclined
    have hends := planUp_ends hm hctx' hscan .all u
    rcases hplan : (m.planUp files ctx' .all).perform u with ⟨e | p, t⟩ <;>
      rw [Action.Ends, hplan] at hends
    · rw [Action.Ends, up, Action.perform_bind_error hplan]
      exact ⟨hends.1, .inr ⟨e, rfl, hends.2⟩⟩
    -- whatever was outstanding then has its version in the history now
    · obtain ⟨ht, hdowns, pending, hpending, hups⟩ := hends
      have hempty : p.isEmpty = true := by
        rw [Plan.isEmpty, hdowns, hups, hdone.eq_nil hversions hpending]
        rfl
      rw [Action.Ends, up, Action.perform_bind_ok hplan, run, if_pos hempty]
      exact ⟨ht, .inl rfl⟩

end Migrator

/-- A directory with two scripts. -/
def Files.withScripts : Files :=
  ⟨[(["210329_121500_b.up.sql"], .file (Text.Utf8.encodeString "B; C")),
    (["210328_221600_a.safe.up.sql"], .file (Text.Utf8.encodeString "A"))], []⟩

/-- Two runs on a bench: the second one finds nothing to do and sends nothing. -/
theorem Migrator.up_progress_twice :
    ((Bench.migrator Bench.telling).up .withScripts (.ofToken .never) .all).Ends (.start [])
      fun r u => r.toOption = some ⟨[], ["210328_221600_a", "210329_121500_b"], false⟩ ∧
        u.heard = ["A", "B", "C"] ∧
        (((Bench.migrator Bench.telling).up .withScripts (.ofToken .never) .all).perform
          u).2.heard = ["A", "B", "C"] := by
  obtain ⟨catalog, hscan⟩ : ∃ catalog, Files.withScripts.catalog "/" = .ok catalog := by
    have hok : (Files.withScripts.catalog "/").toBool = true := by decide +kernel
    rcases h : Files.withScripts.catalog "/" with e | catalog
    · rw [h] at hok
      cases hok
    · exact ⟨catalog, rfl⟩
  have hctx : Bench.telling.Serves (.ofToken .never) := fun _ h => nomatch h
  have hanswer : (((Bench.migrator Bench.telling).up .withScripts (.ofToken .never) .all).perform
      (.start [])).1.toOption = some ⟨[], ["210328_221600_a", "210329_121500_b"], false⟩ := by
    decide +kernel
  have hheard : (((Bench.migrator Bench.telling).up .withScripts (.ofToken .never) .all).perform
      (.start [])).2.heard = ["A", "B", "C"] := by
    decide +kernel
  refine ⟨hanswer, hheard, ?_⟩
  rcases hrun : ((Bench.migrator Bench.telling).up .withScripts (.ofToken .never) .all).perform
    (.start []) with ⟨e | summary, u⟩ <;> rw [hrun] at hanswer hheard
  · cases hanswer
  · cases hanswer
    have hview := ((up_progress Bench.migrator_runs hctx hscan .all (.start [])).2
      _ u (.ofToken .never) hrun rfl hctx).1
    exact (Prod.mk.inj hview).2.trans hheard

end SchemaMigration
