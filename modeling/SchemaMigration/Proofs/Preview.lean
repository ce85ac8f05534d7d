import SchemaMigration.Proofs.HistoryTable
import SchemaMigration.Proofs.MoveProgress
import SchemaMigration.Proofs.RevertProgress
/-! # The preview of a run

The pending scripts can be asked for before they are run.  The question reads and writes nothing: a
table that is missing stays missing, where `up` makes it first, and so the two come to the rows of
the history by different ways.  The answer is the plan of an `up` that follows
(`Migrator.preview_agrees`). -/
namespace SchemaMigration

variable {σ : Type} {made : σ → Bool}

/-- A plan that applies scripts. -/
def Plan.applying (fs : List MigrationFile) : Plan := ⟨.apply, [], fs⟩

namespace Migrator

variable {m : Migrator σ} {l : Ledger σ} {serves : Context σ → Prop} {files : Files}
variable {ctx : Context σ} {s : σ} {fs : List MigrationFile}

/-! ### What a preview asks -/

/-- A preview asks the history for its table and for its rows, and uses nothing else of it. -/
theorem pending_reads (m : Migrator σ) (files : Files) (ctx : Context σ) (limit : Limit)
    {h : History σ} (hcreated : h.isCreated = m.history.isCreated)
    (hlist : h.list = m.history.list) :
    { m with history := h }.pending files ctx limit = m.pending files ctx limit := by
  rw [pending, applied, hcreated, hlist]
  rfl

/-- The rows that a preview and a run go by: those that are read if there is a table, and none if
there is not. -/
theorem applied_all (hm : m.Runs l serves) (hh : m.history.Tracks l serves)
    (hk : m.Houses made serves) (hctx : serves ctx) {listing : List Applied}
    (hrows : (listing : Multiset Applied) = l.rows s) (hnewest : Applied.Newest listing)
    (htable : made s = false → l.rows s = 0) :
    (m.applied ctx .all).Ends s fun r t => (l.view t = l.view s ∧ made t = made s) ∧
      ∀ rows, r = .ok rows → rows = listing := by
  have hnone : ((m.history.isCreated ctx).perform s).1 = .ok false → listing = [] := by
    intro h
    have hmissing : made s = false := ((hk.history.isCreated ctx hctx s).2 false h).symm
    exact (Multiset.coe_eq_zero _).mp (hrows.trans (htable hmissing))
  obtain ⟨hview, hlists⟩ := applied_lists hm hh hctx hrows hnewest hnone .all
  exact ⟨⟨hview, (applied_table hk hctx .all s).1⟩, hlists⟩

/-- What a preview answers: the pending scripts, and nothing is changed. -/
theorem pending_ends (hm : m.Runs l serves) (hh : m.history.Tracks l serves)
    (hk : m.Houses made serves) (hctx : serves ctx) (limit : Limit) {listing : List Applied}
    (hrows : (listing : Multiset Applied) = l.rows s) (hnewest : Applied.Newest listing)
    (htable : made s = false → l.rows s = 0) :
    (m.pending files ctx limit).Ends s fun r t => (l.view t = l.view s ∧ made t = made s) ∧
      ∀ fs, r = .ok fs → ∃ catalog, files.catalog m.directory = .ok catalog ∧
        fs = limit.truncate (Plan.pending catalog listing) := by
  refine .bind (applied_all hm hh hk hctx hrows hnewest htable) (fun e t h => ⟨h.1, nofun⟩)
    fun rows t h => ?_
  obtain ⟨hkept, hread⟩ := h
  obtain rfl := hread rows rfl
  cases hscan : files.catalog m.directory with
  | error e => exact ⟨hkept, nofun⟩
  | ok catalog =>
    refine ⟨hkept, fun fs hfs => ⟨catalog, rfl, ?_⟩⟩
    cases hfs
    rfl

/-- What is pending applies. -/
theorem direction_of_pending {catalog : Catalog} (hscan : files.catalog m.directory = .ok catalog)
    (limit : Limit) (applied : List Applied) :
    ∀ f ∈ limit.truncate (Plan.pending catalog applied), f.direction = .up := by
  obtain ⟨_, _, hholds⟩ := Files.catalog_holds hscan
  intro f hf
  have hmem : f ∈ catalog.ups := (List.mem_filter.mp (Limit.mem_of_mem_truncate hf)).1
  exact ((hholds.mem .up f).mp hmem).2

/-! ### What a run makes of the same state -/

/-- The plan of `up` is what is pending.  It is made unless the history cannot be read. -/
theorem planUp_applying (hm : m.Runs l serves) (hh : m.history.Tracks l serves)
    (hctx : serves ctx) {catalog : Catalog} (hscan : files.catalog m.directory = .ok catalog)
    (limit : Limit) {listing : List Applied} (hrows : (listing : Multiset Applied) = l.rows s)
    (hnewest : Applied.Newest listing) :
    (m.planUp files ctx limit).Ends s fun r t => l.view t = l.view s ∧ match r with
      | .error e => (m.allApplied ctx).perform s = (.error e, t)
      | .ok p => p = .applying (limit.truncate (Plan.pending catalog listing)) := by
  rw [planUp, hscan]
  refine .bind (R := fun r t => (m.allApplied ctx).perform s = (r, t) ∧ l.view t = l.view s ∧
    ∀ applied : List Applied, r = .ok applied → applied = listing)
    ⟨rfl, allApplied_shows hm hh hctx hrows hnewest⟩ ?_ ?_
  · rintro e t ⟨hperform, ht, -⟩
    exact ⟨ht, hperform⟩
  · rintro applied t ⟨-, ht, hread⟩
    obtain rfl := hread applied rfl
    exact ⟨ht, rfl⟩

section Up

variable {limit : Limit} {summary : Summary} {v : σ}
variable (hplan : ∀ p u, (m.planUp files ctx limit).perform s = (.ok p, u) → p = .applying fs)
include hplan

/-- A run that answers has made its plan. -/
theorem run_of_up (h : (m.up files ctx limit).perform s = (.ok summary, v)) :
    ∃ u, (m.planUp files ctx limit).perform s = (.ok (.applying fs), u) ∧
      (m.run files ctx (.applying fs)).perform u = (.ok summary, v) := by
  rcases hperform : (m.planUp files ctx limit).perform s with ⟨e | p, u⟩
  · rw [up, Action.perform_bind_error hperform] at h
    cases h
  · rw [up, Action.perform_bind_ok hperform] at h
    obtain rfl := hplan p u hperform
    exact ⟨u, rfl, h⟩

variable (hup : ∀ f ∈ fs, f.direction = .up)
include hup

/-- Only an empty plan comes to an empty summary. -/
theorem up_empty_iff (h : (m.up files ctx limit).perform s = (.ok summary, v)) :
    summary = .empty ↔ fs = [] := by
  obtain ⟨u, -, hrun⟩ := run_of_up hplan h
  rcases course_of_run_ok hrun with ⟨hsummary, -⟩ | ⟨rfl, -⟩
  · replace hsummary : summary = ⟨[], fs.map (·.version), false⟩ :=
      hsummary.trans (foldl_add_ups hup .empty)
    rw [hsummary, Summary.empty]
    simp
  · refine ⟨nofun, ?_⟩
    rintro rfl
    -- nobody is asked about an empty plan
    cases hrun

/-- `up` ends well, without having been declined, exactly if its plan was made and agreed to and its
scripts have succeeded. -/
theorem up_applies_iff :
    (m.up files ctx limit).perform s = (.ok summary, v) ∧ summary.declined = false ↔
      ∃ u, (m.planUp files ctx limit).perform s = (.ok (.applying fs), u) ∧
        m.Agrees (.applying fs) u ∧ Course m files ctx (m.agreed (.applying fs) u) fs v ∧
        summary = ⟨[], fs.map (·.version), false⟩ := by
  have hfold : fs.foldl Summary.add .empty = ⟨[], fs.map (·.version), false⟩ :=
    foldl_add_ups hup .empty
  constructor
  · rintro ⟨h, hdeclined⟩
    obtain ⟨u, hu, hrun⟩ := run_of_up hplan h
    refine ⟨u, hu, agrees_of_run hrun hdeclined, ?_⟩
    rcases course_of_run_ok hrun with ⟨hsummary, hcourse⟩ | ⟨rfl, -⟩
    · exact ⟨hcourse, hsummary.trans hfold⟩
    · cases hdeclined
  · rintro ⟨u, hu, hagrees, hcourse, rfl⟩
    rw [up, Action.perform_bind_ok hu, run_eq_proceed hagrees, ← hfold]
    exact ⟨proceed_of_complete hcourse, by rw [hfold]⟩

end Up

/-- **A preview agrees with the run that follows**, over every directory, every history with its
table or without it, every limit, and whatever fails:

* The preview leaves rows, statements and table as they are, and it would go the same way over a
  history of which only these two questions are the same.
* If it answers, an `up` with the limit that comes next plans to apply exactly the scripts of the
  answer, in their order, unless the history cannot be read.
* If that `up` ends well, its summary is empty exactly if the answer was.  It ends well without
  having been declined exactly if its plan was made and agreed to and the scripts of the answer, each
  with its marker, have succeeded one after another; then the summary has their versions. -/
theorem preview_agrees (hm : m.Runs l serves) (hh : m.history.Tracks l serves)
    (hk : m.Houses made serves) (hctx : serves ctx) {ctx' : Context σ} (hctx' : serves ctx')
    (limit : Limit) (htable : made s = false → l.rows s = 0) :
    (m.pending files ctx limit).Ends s fun r t =>
      l.view t = l.view s ∧ made t = made s ∧
      (∀ h : History σ, h.isCreated = m.history.isCreated → h.list = m.history.list →
        ({ m with history := h }.pending files ctx limit).perform s = (r, t)) ∧
      ∀ fs, r = .ok fs →
        ((m.planUp files ctx' limit).Ends t fun r u => l.view u = l.view s ∧ match r with
          | .error e => (m.allApplied ctx').perform t = (.error e, u) ∧
              (m.up files ctx' limit).perform t = (.error e, u)
          | .ok p => p = .applying fs) ∧
        ∀ summary v, ((m.up files ctx' limit).perform t = (.ok summary, v) →
            (summary = .empty ↔ fs = [])) ∧
          ((m.up files ctx' limit).perform t = (.ok summary, v) ∧ summary.declined = false ↔
            ∃ u, (m.planUp files ctx' limit).perform t = (.ok (.applying fs), u) ∧
              m.Agrees (.applying fs) u ∧ Course m files ctx' (m.agreed (.applying fs) u) fs v ∧
              summary = ⟨[], fs.map (·.version), false⟩) := by
  obtain ⟨listing, hrows, hnewest⟩ := Applied.exists_listing (l.rows s)
  have hpending : (m.pending files ctx limit).Ends s _ :=
    pending_ends hm hh hk hctx limit hrows hnewest htable
  obtain ⟨⟨hview, hmade⟩, hanswer⟩ := hpending
  refine ⟨hview, hmade, fun h hcreated hlist => ?_, fun fs hfs => ?_⟩
  · rw [pending_reads m files ctx limit hcreated hlist]
  obtain ⟨catalog, hscan, rfl⟩ := hanswer fs hfs
  have hplan := planUp_applying hm hh hctx' hscan limit
    (hrows.trans (Prod.mk.inj hview).1.symm) hnewest
  have hup := direction_of_pending hscan limit listing
  -- from here on only the answer matters, and not how it was found
  generalize limit.truncate (Plan.pending catalog listing) = fs at hplan hup
  have happlying (p : Plan) (u : σ) (h : (m.planUp files ctx' limit).perform
      ((m.pending files ctx limit).perform s).2 = (.ok p, u)) : p = .applying fs := by
    rw [Action.Ends, h] at hplan
    exact hplan.2
  refine ⟨⟨hplan.1.trans hview, ?_⟩, fun summary v => ⟨?_, up_applies_iff happlying hup⟩⟩
  · rcases hperform : (m.planUp files ctx' limit).perform _ with ⟨e | p, u⟩
    · rw [Action.Ends, hperform] at hplan
      exact ⟨hplan.2, by rw [up, Action.perform_bind_error hperform]⟩
    · exact happlying p u hperform
  · exact up_empty_iff happlying hup

end Migrator

/-- A preview on a bench without a table, and the run that follows: one script of two, in a
transaction.  The table is made by the run. -/
theorem Migrator.preview_agrees_without_table :
    let m := Bench.migrator Bench.telling
    let ctx := Context.ofToken Token.never
    let first : MigrationFile := ⟨"210328_221600_a", true, .up, "/210328_221600_a.safe.up.sql"⟩
    let shown := (m.pending .withScripts ctx (.count 1)).perform (.start [])
    let ran := (m.up .withScripts ctx (.count 1)).perform shown.2
    shown.1.toOption = some [first] ∧ shown.2.memory.isCreated = false ∧
    ran.1.toOption = some ⟨[], ["210328_221600_a"], false⟩ ∧ ran.2.memory.isCreated = true ∧
    ∃ u, m.Course .withScripts ctx u [first] ran.2 := by
  intro m ctx first shown ran
  have hctx : Bench.telling.Serves ctx := fun _ h => nomatch h
  have hshown : shown.1.toOption = some [first] := by decide +kernel
  have hran : ran.1.toOption = some ⟨[], ["210328_221600_a"], false⟩ := by decide +kernel
  have hagrees : (m.pending .withScripts ctx (.count 1)).Ends (.start []) _ :=
    preview_agrees Bench.migrator_runs Bench.migrator_tracks Bench.migrator_houses hctx hctx
      (.count 1) (fun _ => rfl)
  obtain ⟨-, hmade, -, hanswer⟩ := hagrees
  refine ⟨hshown, hmade, hran, by decide +kernel, ?_⟩
  rcases hanswered : shown.1 with e | fs <;> rw [hanswered] at hshown
  · cases hshown
  obtain rfl : fs = [first] := Option.some.inj hshown
  rcases hsummary : ran.1 with e | summary <;> rw [hsummary] at hran
  · cases hran
  obtain rfl : summary = ⟨[], ["210328_221600_a"], false⟩ := Option.some.inj hran
  obtain ⟨u, -, -, hcourse, -⟩ := ((hanswer [first] hanswered).2 _ ran.2).2.mp
    ⟨Prod.ext hsummary rfl, rfl⟩
  exact ⟨_, hcourse⟩

end SchemaMigration
