import SchemaMigration.Proofs.MoveProgress
import SchemaMigration.Proofs.RevertProgress
import SchemaMigration.Proofs.ScriptAttempts
/-! # Versions are recorded once

A table of a history need not be unique in its versions.  That no version is recorded twice is the
work of the migrator: an insertion comes after something that has made sure that the version is not
there, be it the comparison of the directory with the history, the removal of the version by the
same run, or a question to the history.  For the scripts of a plan this is one condition on their
order (`Fresh`), which every plan meets when it is made, and which the rest of a plan still meets
after a script has succeeded (`Migrator.execute_fresh`).  A script that fails changes no row.  So
however operations follow one another, and wherever they fail, versions stay distinct
(`Operated.distinct`). -/
namespace SchemaMigration

variable {σ : Type}

/-! ### Scripts that find their versions missing -/

/-- Over a history with such versions, no script applies a version that is there: the version was
not there from the beginning, or a script before has reverted it, and no script before has applied
it since. -/
def Fresh : Multiset String → List MigrationFile → Prop
  | _, [] => True
  | versions, f :: rest =>
    match f.direction with
    | .up => f.version ∉ versions ∧ Fresh (f.version ::ₘ versions) rest
    | .down => Fresh (versions.filter (· ≠ f.version)) rest

namespace Fresh

variable {versions : Multiset String} {f : MigrationFile} {fs rest : List MigrationFile}

theorem cons_up (h : f.direction = .up) :
    Fresh versions (f :: rest) ↔ f.version ∉ versions ∧ Fresh (f.version ::ₘ versions) rest := by
  rw [Fresh, h]

theorem cons_down (h : f.direction = .down) :
    Fresh versions (f :: rest) ↔ Fresh (versions.filter (· ≠ f.version)) rest := by
  rw [Fresh, h]

/-- Distinct versions that are not there may be applied. -/
theorem of_ups (hup : ∀ f ∈ fs, f.direction = .up) (hdistinct : (fs.map (·.version)).Nodup)
    (hnew : ∀ f ∈ fs, f.version ∉ versions) : Fresh versions fs := by
  induction fs generalizing versions with
  | nil => trivial
  | cons f fs ih =>
    obtain ⟨hf, hrest⟩ := List.nodup_cons.mp hdistinct
    rw [cons_up (hup f List.mem_cons_self)]
    refine ⟨hnew f List.mem_cons_self, ih (fun g hg => hup g (List.mem_cons_of_mem _ hg)) hrest ?_⟩
    intro g hg hmem
    rcases Multiset.mem_cons.mp hmem with heq | hold
    · exact hf (List.mem_map.mpr ⟨g, hg, heq⟩)
    · exact hnew g (List.mem_cons_of_mem _ hg) hold

/-- After scripts that revert, their versions may be applied. -/
theorem downs_append (hdown : ∀ f ∈ fs, f.direction = .down)
    (h : Fresh (versions.filter (· ∉ fs.map (·.version))) rest) : Fresh versions (fs ++ rest) := by
  induction fs generalizing versions with
  | nil =>
    rwa [List.map_nil, Multiset.filter_eq_self.mpr fun _ _ => List.not_mem_nil] at h
  | cons f fs ih =>
    rw [List.cons_append, cons_down (hdown f List.mem_cons_self)]
    have hfilter : (versions.filter (· ≠ f.version)).filter (· ∉ fs.map (·.version)) =
        versions.filter (· ∉ (f :: fs).map (·.version)) := by
      rw [Multiset.filter_filter]
      refine Multiset.filter_congr fun version _ => ?_
      rw [List.map_cons, List.mem_cons, not_or, and_comm]
    exact ih (fun g hg => hdown g (List.mem_cons_of_mem _ hg)) (hfilter ▸ h)

theorem of_downs (hdown : ∀ f ∈ fs, f.direction = .down) : Fresh versions fs := by
  rw [← List.append_nil fs]
  exact downs_append hdown trivial

end Fresh

/-! ### Histories that know their versions -/

/-- A history that answers whether it has a version. -/
def History.Knows (h : History σ) (l : Ledger σ) (serves : Context σ → Prop) : Prop :=
  ∀ ctx, serves ctx → ∀ version s, (h.contains ctx version).Ends s fun r t =>
    l.view t = l.view s ∧ ∀ answer, r = .ok answer → (answer = true ↔ version ∈ l.versions s)

/-- A migrator whose history adds a row or nothing, takes away the rows of a version or nothing, and
answers what it has. -/
structure Migrator.Records (m : Migrator σ) (l : Ledger σ) (serves : Context σ → Prop) : Prop where
  runs : m.Runs l serves
  tracks : m.history.Tracks l serves
  knows : m.history.Knows l serves

/-- The versions are distinct. -/
def Ledger.Distinct (l : Ledger σ) (s : σ) : Prop := (l.versions s).Nodup

theorem Ledger.versions_of_rows {l : Ledger σ} {s t : σ} (h : l.rows t = l.rows s) :
    l.versions t = l.versions s := by
  rw [versions, h, versions]

theorem Ledger.Distinct.of_rows {l : Ledger σ} {s t : σ} (hs : l.Distinct s)
    (h : l.rows t = l.rows s) : l.Distinct t := by
  rw [Distinct, versions_of_rows h]
  exact hs

theorem Ledger.Distinct.of_view {l : Ledger σ} {s t : σ} (hs : l.Distinct s)
    (h : l.view t = l.view s) : l.Distinct t := hs.of_rows (Prod.mk.inj h).1

theorem Ledger.Distinct.add {l : Ledger σ} {s t : σ} (hs : l.Distinct s) {version : String}
    {time : Int} (hnew : version ∉ l.versions s)
    (h : l.rows t = ⟨version, time⟩ ::ₘ l.rows s) : l.Distinct t := by
  rw [Distinct, versions, h, Multiset.map_cons]
  exact Multiset.nodup_cons.mpr ⟨hnew, hs⟩

theorem Ledger.versions_of_filter {l : Ledger σ} {s t : σ} {version : String}
    (h : l.rows t = (l.rows s).filter (·.version ≠ version)) :
    l.versions t = (l.versions s).filter (· ≠ version) := by
  rw [versions, h, versions, Multiset.filter_map]
  rfl

theorem Ledger.Distinct.forget {l : Ledger σ} {s t : σ} (hs : l.Distinct s) {version : String}
    (h : l.rows t = (l.rows s).filter (·.version ≠ version)) : l.Distinct t := by
  rw [Distinct, versions_of_filter h]
  exact hs.filter _

namespace Migrator

variable {m : Migrator σ} {l : Ledger σ} {serves : Context σ → Prop} {files : Files}
variable {ctx : Context σ} {s : σ}

section Runs

variable (hm : m.Runs l serves) (hh : m.history.Tracks l serves) (hctx : serves ctx)
include hm hh hctx

/-- **One script** of a plan that finds its versions missing: the versions stay distinct, and after
a success the other scripts find theirs missing too. -/
theorem execute_fresh {f : MigrationFile} {rest : List MigrationFile} (hdistinct : l.Distinct s)
    (hfresh : Fresh (l.versions s) (f :: rest)) :
    (m.execute files ctx f).Ends s fun r t =>
      l.Distinct t ∧ (r = .ok () → Fresh (l.versions t) rest) := by
  cases hdirection : f.direction with
  | up =>
    obtain ⟨hnew, hrest⟩ := (Fresh.cons_up hdirection).mp hfresh
    refine (execute_ends hm hctx hdirection s).mono fun r t h => ?_
    cases r with
    | error e => exact ⟨hdistinct.of_rows h.1, nofun⟩
    | ok _ =>
      obtain ⟨⟨time, hrows⟩, -⟩ := h
      have hversions : l.versions t = f.version ::ₘ l.versions s := by
        rw [Ledger.versions, hrows, Multiset.map_cons]
        rfl
      exact ⟨hdistinct.add hnew hrows, fun _ => hversions ▸ hrest⟩
  | down =>
    have hrest := (Fresh.cons_down hdirection).mp hfresh
    refine (execute_down_ends hm hh hctx hdirection s).mono fun r t h => ?_
    cases r with
    | error e => exact ⟨hdistinct.of_rows h.1, nofun⟩
    | ok _ =>
      have hversions := Ledger.versions_of_filter h.1
      exact ⟨hdistinct.forget h.1, fun _ => hversions ▸ hrest⟩

/-- The scripts of a plan one after another, up to one that fails. -/
theorem proceed_distinct (total done : Nat) (summary : Summary) {fs : List MigrationFile}
    (hdistinct : l.Distinct s) (hfresh : Fresh (l.versions s) fs) :
    (m.proceed files ctx total done summary fs).Ends s fun _ t => l.Distinct t := by
  induction fs generalizing s done summary with
  | nil => exact hdistinct
  | cons f fs ih =>
    have hstep : (Action.mapFailure (.migrationFailed f.version done total)
        (m.execute files ctx f)).Ends s fun r t =>
          l.Distinct t ∧ (r = .ok () → Fresh (l.versions t) fs) := by
      refine .mapFailure ((execute_fresh hm hh hctx hdistinct hfresh).mono fun r t h => ?_)
      cases r with
      | error e => exact ⟨h.1, nofun⟩
      | ok _ => exact h
    refine .bind hstep (fun e t h => h.1) fun _ t h => ?_
    exact ih _ _ h.1 (h.2 rfl)

theorem run_distinct {p : Plan} (hdistinct : l.Distinct s)
    (hfresh : Fresh (l.versions s) p.steps) :
    (m.run files ctx p).Ends s fun _ t => l.Distinct t := by
  rw [run]
  split
  · exact hdistinct
  · refine .keeps_bind (hm.confirm p) (fun _ t ht => hdistinct.of_view ht) fun answer t ht => ?_
    cases answer with
    | false => exact hdistinct.of_view ht
    | true =>
      have hversions := Ledger.versions_of_rows (Prod.mk.inj ht).1
      exact proceed_distinct hm hh hctx _ 0 .empty (hdistinct.of_view ht) (hversions ▸ hfresh)

end Runs

/-! ### The plans -/

/-- A plan that was made without touching the history, and whose scripts find their versions
missing. -/
def Proposes (l : Ledger σ) (s : σ) (r : Except Failure Plan) (t : σ) : Prop :=
  l.view t = l.view s ∧ ∀ p, r = .ok p → Fresh (l.versions s) p.steps

theorem Proposes.of_error {e : Failure} {t : σ} (ht : l.view t = l.view s) :
    Proposes l s (.error e) t := ⟨ht, nofun⟩

theorem proposes_of_catalog {directory : String} {t : σ} (ht : l.view t = l.view s)
    (plan : Catalog → Except Failure Plan)
    (hplan : ∀ catalog p, files.catalog directory = .ok catalog → plan catalog = .ok p →
      Fresh (l.versions s) p.steps) :
    (Action.ofExcept (files.catalog directory) >>= fun catalog =>
      Action.ofExcept (plan catalog)).Ends t (Proposes l s) := by
  cases hscan : files.catalog directory with
  | error e => exact .of_error ht
  | ok catalog =>
    rw [Action.Ends, Action.perform_ofExcept_ok_bind, Action.perform_ofExcept]
    exact ⟨ht, fun p hp => hplan catalog p hscan hp⟩

theorem Outstanding.fresh {directory : String} {pending fs : List MigrationFile}
    (h : Outstanding l files directory s pending) (hsub : fs.Sublist pending) :
    Fresh (l.versions s) fs := by
  have hmem (f : MigrationFile) (hf : f ∈ fs) := (h.mem f).mp (hsub.subset hf)
  refine .of_ups (fun f hf => (hmem f hf).2.1) ?_ fun f hf => (hmem f hf).2.2
  have hascending : Catalog.Ascending fs := h.ascending.sublist hsub
  exact List.pairwise_map.mpr (hascending.imp ne_of_lt)

theorem back_fresh {catalog : Catalog} {directory : String} {rows : List Applied} {p : Plan}
    (hscan : files.catalog directory = .ok catalog) (h : Plan.back catalog rows = .ok p) :
    Fresh (l.versions s) p.steps := by
  obtain ⟨hdowns, hups⟩ := Plan.back_of_ok h
  rw [Plan.steps, hups, List.append_nil]
  exact .of_downs (hdowns.direction_eq hscan)

/-- What is reverted first may be applied again. -/
theorem again_fresh {catalog : Catalog} {directory : String} {rows : List Applied} {p : Plan}
    (hscan : files.catalog directory = .ok catalog) (hdistinct : (rows.map (·.version)).Nodup)
    (h : Plan.again catalog rows = .ok p) : Fresh (l.versions s) p.steps := by
  obtain ⟨hdowns, hups⟩ := Plan.again_of_ok h
  refine .downs_append (hdowns.direction_eq hscan) (.of_ups (hups.direction_eq hscan) ?_ ?_)
  · rw [hups.versions, List.map_reverse]
    exact List.nodup_reverse.mpr hdistinct
  · intro f hf hmem
    have hversion : f.version ∈ rows.reverse.map (·.version) :=
      hups.versions ▸ List.mem_map_of_mem hf
    rw [List.map_reverse, List.mem_reverse, ← hdowns.versions] at hversion
    exact (Multiset.mem_filter.mp hmem).2 hversion

section Planning

variable (hm : m.Runs l serves) (hctx : serves ctx) (hdistinct : l.Distinct s)
include hm hctx

theorem planUp_proposes (limit : Limit) :
    (m.planUp files ctx limit).Ends s (Proposes l s) := by
  refine .bind (allApplied_ends hm hctx s) (fun e t h => .of_error h.1) fun applied t h => ?_
  obtain ⟨ht, hrows⟩ := h
  refine proposes_of_catalog ht (fun catalog => .ok (.forward catalog applied limit)) ?_
  rintro catalog p hscan ⟨⟩
  have hpending := pending_outstanding hscan (hrows applied rfl)
  refine hpending.fresh ?_
  rw [Plan.forward, Plan.steps, List.nil_append, Limit.truncate_eq_take]
  exact List.take_sublist _ _

theorem planMove_proposes (version : String) :
    (m.planMove files ctx version).Ends s (Proposes l s) := by
  refine .bind (R := fun _ t => t = s) ?_ ?_ ?_
  · rw [Action.Ends, Action.perform_ofExcept]
  · rintro e _ rfl
    exact .of_error rfl
  rintro _ _ rfl
  refine .bind (allApplied_ends hm hctx _) (fun e t h => .of_error h.1) fun applied t h => ?_
  obtain ⟨ht, hrows⟩ := h
  refine proposes_of_catalog ht (Plan.moveTo · applied version) ?_
  intro catalog p hscan hp
  by_cases hmem : version ∈ applied.map (·.version)
  · rw [Plan.moveTo_of_mem hmem] at hp
    exact back_fresh hscan hp
  · obtain ⟨-, rfl⟩ := Plan.moveTo_of_not_mem hmem hp
    have hpending := pending_outstanding hscan (hrows applied rfl)
    exact hpending.fresh List.filter_sublist

variable (hh : m.history.Tracks l serves)
include hh hdistinct

/-- The rows that are read, if there are any, are among those of the history. -/
theorem applied_distinct (limit : Limit) :
    (m.applied ctx limit).Ends s fun r t => l.view t = l.view s ∧
      ∀ rows, r = .ok rows → (rows.map (·.version)).Nodup := by
  refine .keeps_bind (hm.history.isCreated ctx hctx) (fun e t ht => ⟨ht, nofun⟩) ?_
  intro created t ht
  cases created with
  | false =>
    refine ⟨ht, ?_⟩
    rintro _ ⟨⟩
    exact List.nodup_nil
  | true =>
    refine (hh.list ctx hctx limit.toNumber t).mono fun r u h => ⟨h.1.trans ht, fun rows hr => ?_⟩
    obtain ⟨all, -, hall, rfl⟩ := h.2 rows hr
    have hnodup : (all.map (·.version)).Nodup := by
      have := hdistinct.of_view ht
      rw [Ledger.Distinct, Ledger.versions, ← hall] at this
      exact this
    rw [Applied.atMost_eq_take, List.map_take]
    exact hnodup.sublist (List.take_sublist _ _)

theorem planFirst_proposes (limit : Limit) (idle : Plan) (hidle : idle.steps = [])
    (plan : List Applied → Catalog → Except Failure Plan)
    (hplan : ∀ rows catalog p, (rows.map (·.version)).Nodup →
      files.catalog m.directory = .ok catalog → plan rows catalog = .ok p →
      Fresh (l.versions s) p.steps) :
    (m.planFirst files ctx limit idle plan).Ends s (Proposes l s) := by
  refine .bind (applied_distinct hm hctx hdistinct hh limit) (fun e t h => .of_error h.1)
    fun rows t h => ?_
  obtain ⟨ht, hrows⟩ := h
  split
  · refine ⟨ht, ?_⟩
    rintro _ ⟨⟩
    rw [hidle]
    trivial
  · exact proposes_of_catalog ht (plan rows) fun catalog p => hplan rows catalog p (hrows rows rfl)

/-- An operation that makes a plan and runs it. -/
theorem planned_distinct {planning : Action σ Plan} (h : planning.Ends s (Proposes l s)) :
    ((planning >>= m.run files ctx) >>= fun _ => pure ()).Ends s fun _ t => l.Distinct t := by
  have hrun : (planning >>= m.run files ctx).Ends s fun _ t => l.Distinct t := by
    refine .bind h (fun e t ht => hdistinct.of_view ht.1) fun p t ht => ?_
    have hversions := Ledger.versions_of_rows (Prod.mk.inj ht.1).1
    exact run_distinct hm hh hctx (hdistinct.of_view ht.1) (hversions ▸ ht.2 p rfl)
  exact hrun.bind (fun _ _ ht => ht) fun _ _ ht => ht

end Planning

/-- The script of an operation that is given as a text leaves the rows alone, and what is noted
after it may rely on that. -/
theorem text_distinct (hm : m.Runs l serves) (hctx : serves ctx) (hdistinct : l.Distinct s)
    (safely : Bool) (statements : Except Failure (List String)) (note : Action σ Unit)
    (hnote : ∀ t, l.rows t = l.rows s → note.Ends t fun _ u => l.Distinct u) :
    (Action.ofExcept statements >>= fun statements => m.runScript ctx safely statements >>=
      fun _ => note).Ends s fun _ t => l.Distinct t := by
  cases statements with
  | error e => exact hdistinct
  | ok statements =>
    rw [Action.Ends, Action.perform_ofExcept_ok_bind]
    exact Action.Ends.bind (runScript_ends hm hctx safely statements s)
      (fun _ t h => hdistinct.of_rows h.1) fun _ t h => hnote t h.1

/-- **One operation**, whatever it is asked, over whatever directory and wherever it fails. -/
theorem operate_distinct (hm : m.Records l serves) (hctx : serves ctx) (op : Operation)
    (hdistinct : l.Distinct s) : (m.operate files ctx op).Ends s fun _ t => l.Distinct t := by
  have hplanned {planning : Action σ Plan} (h : planning.Ends s (Proposes l s)) :
      ((planning >>= m.run files ctx) >>= fun _ => pure ()).Ends s fun _ t => l.Distinct t :=
    planned_distinct hm.runs hctx hdistinct hm.tracks h
  cases op with
  | up limit => exact hplanned (planUp_proposes hm.runs hctx limit)
  | down limit =>
    refine hplanned (planFirst_proposes hm.runs hctx hdistinct hm.tracks limit ⟨.revert, [], []⟩
      rfl (fun rows catalog => Plan.back catalog rows) ?_)
    exact fun _ _ _ _ hscan hp => back_fresh hscan hp
  | redo limit =>
    refine hplanned (planFirst_proposes hm.runs hctx hdistinct hm.tracks limit ⟨.redo, [], []⟩
      rfl (fun rows catalog => Plan.again catalog rows) ?_)
    exact fun _ _ _ hrows hscan hp => again_fresh hscan hrows hp
  | moveTo version => exact hplanned (planMove_proposes hm.runs hctx version)
  | upgrade version script safely =>
    refine .bind (hm.knows ctx hctx version s) (fun e t h => hdistinct.of_view h.1)
      fun known t h => ?_
    obtain ⟨ht, hanswer⟩ := h
    cases known with
    | true => exact hdistinct.of_view ht
    | false =>
      have hnew : version ∉ l.versions s := fun hmem => nomatch (hanswer false rfl).mpr hmem
      refine text_distinct hm.runs hctx (hdistinct.of_view ht) safely _ _ fun u hu => ?_
      refine (hm.runs.history.insert ctx hctx version u).mono fun r v h => ?_
      have hrows := hu.trans (Prod.mk.inj ht).1
      cases r with
      | error e => exact hdistinct.of_rows (h.2.trans hrows)
      | ok _ =>
        obtain ⟨-, time, hadded⟩ := h
        exact (hdistinct.of_rows hrows).add (Ledger.versions_of_rows hrows ▸ hnew) hadded
  | downgrade version script safely =>
    refine .bind (hm.knows ctx hctx version s) (fun e t h => hdistinct.of_view h.1)
      fun known t h => ?_
    cases known with
    | false => exact hdistinct.of_view h.1
    | true =>
      refine text_distinct hm.runs hctx (hdistinct.of_view h.1) safely _ _ fun u hu => ?_
      refine (hm.tracks.remove ctx hctx version u).mono fun r v hv => ?_
      have hleft := (hdistinct.of_view h.1).of_rows hu
      cases r with
      | error e => exact hleft.of_rows hv.2
      | ok _ => exact hleft.forget hv.2

end Migrator

/-! ### Operations one after another -/

/-- What comes of operations one after another: each with a migrator, a directory and a context of
its own, and however it ends.  Between them anything may happen that leaves the rows of the history
alone. -/
inductive Operated (l : Ledger σ) (serves : Context σ → Prop) (s : σ) : σ → Prop
  | start : Operated l serves s s
  | operate {m : Migrator σ} {t : σ} (h : Operated l serves s t) (hm : m.Records l serves)
      (files : Files) {ctx : Context σ} (hctx : serves ctx) (op : Operation) :
      Operated l serves s ((m.operate files ctx op).perform t).2
  | elsewhere {t u : σ} (h : Operated l serves s t) (hrows : l.rows u = l.rows t) :
      Operated l serves s u

theorem Operated.distinct {l : Ledger σ} {serves : Context σ → Prop} {s t : σ}
    (h : Operated l serves s t) (hstart : l.Distinct s) : l.Distinct t := by
  induction h with
  | start => exact hstart
  | operate _ hm files hctx op ih => exact Migrator.operate_distinct hm hctx op ih
  | elsewhere _ hrows ih => exact ih.of_rows hrows

/-- **No version is recorded twice**: from an empty history on, whatever operations follow one
another, with whatever directories, and wherever they fail. -/
theorem Operated.recorded_once {l : Ledger σ} {serves : Context σ → Prop} {s t : σ}
    (h : Operated l serves s t) (hempty : l.rows s = 0) (version : String) :
    ((l.rows t).filter (·.version = version)).card ≤ 1 := by
  have hstart : l.Distinct s := by
    rw [Ledger.Distinct, Ledger.versions, hempty]
    exact Multiset.nodup_zero
  have hcount : (l.versions t).count version ≤ 1 :=
    Multiset.nodup_iff_count_le_one.mp (h.distinct hstart) version
  rwa [Ledger.versions, Multiset.count_map, Multiset.filter_congr fun a _ => eq_comm] at hcount

/-! ### Operations on a bench -/

/-- A history in memory knows its versions. -/
theorem Memory.history_knows {place : Part σ Memory} {heard : Part σ (List String)}
    (c : Connection σ) (alwaysSafe : Bool) (broken : List String) (serves : Context σ → Prop) :
    (Memory.history place c alwaysSafe broken).Knows (Memory.ledger place heard) serves := by
  intro ctx _ version s
  refine ⟨rfl, ?_⟩
  rintro _ ⟨⟩
  show ((place.get s).records.any fun a => a.version == version) = true ↔
    version ∈ ((place.get s).records : Multiset Applied).map (·.version)
  rw [List.any_eq_true, Multiset.map_coe, Multiset.mem_coe, List.mem_map]
  simp

theorem Bench.migrator_records :
    (migrator telling).Records (Memory.ledger memoryPart heardPart) telling.Serves where
  runs := migrator_runs
  tracks := migrator_tracks
  knows := Memory.history_knows telling false [] telling.Serves

/-- A migration is applied as a text, a redo that cannot read its script leaves it reverted, and
`up` applies it again. -/
theorem Operated.recorded_once_again :
    let m := Bench.migrator Bench.telling
    let l := Memory.ledger Bench.memoryPart Bench.heardPart
    let ctx := Context.ofToken Token.never
    let applied := ((m.operate .empty ctx (.upgrade "210328_221600_a" "A" true)).perform
      (.holding [])).2
    let stopped := ((m.operate .withPair ctx (.redo .all)).perform applied).2
    let again := ((m.operate .withPairs ctx (.up .all)).perform stopped).2
    applied.memory.records.map (·.version) = ["210328_221600_a"] ∧
    stopped.memory.records = [] ∧
    again.memory.records.map (·.version) = ["210328_221600_a", "210329_121500_b"] ∧
    ∀ version, ((l.rows again).filter (·.version = version)).card ≤ 1 := by
  intro m l ctx applied stopped again
  have hctx : Bench.telling.Serves ctx := fun _ h => nomatch h
  have hfirst : Operated l Bench.telling.Serves (.holding []) applied :=
    .operate .start Bench.migrator_records .empty hctx _
  have hsecond : Operated l Bench.telling.Serves (.holding []) stopped :=
    .operate hfirst Bench.migrator_records .withPair hctx _
  have hthird : Operated l Bench.telling.Serves (.holding []) again :=
    .operate hsecond Bench.migrator_records .withPairs hctx _
  refine ⟨by decide +kernel, by decide +kernel, by decide +kernel, fun version => ?_⟩
  exact hthird.recorded_once rfl version

end SchemaMigration
