import SchemaMigration.Proofs.DistinctVersions
import SchemaMigration.Proofs.FileNames
import SchemaMigration.Proofs.PlanRefusals
/-! # What is recorded as a version

A version that comes out of a directory has been read off the name of a file, and so it is a
version; the same versions are those that the name of a file can carry, and those that a schema can
be moved to (`Version.validate_iff_carried`).  Every script of a plan stands in the directory, so
whatever a plan records is a version.  A script that is given as a text comes with a version of its
own, which is recorded as it is.  So in a history that began empty, a version that is none was given
together with a script (`Performed.recorded_versions`). -/
namespace SchemaMigration

variable {σ α : Type}

/-! ### What an operation records -/

/-- Every recorded version is one of those allowed. -/
def Ledger.Only (l : Ledger σ) (allowed : String → Prop) (s : σ) : Prop :=
  ∀ version ∈ l.versions s, allowed version

namespace Ledger.Only

variable {l : Ledger σ} {allowed : String → Prop} {s t : σ}

theorem of_rows (hs : l.Only allowed s) (h : l.rows t = l.rows s) : l.Only allowed t := by
  rw [Only, versions_of_rows h]
  exact hs

theorem of_view (hs : l.Only allowed s) (h : l.view t = l.view s) : l.Only allowed t :=
  hs.of_rows (Prod.mk.inj h).1

theorem add (hs : l.Only allowed s) {version : String} {time : Int} (hnew : allowed version)
    (h : l.rows t = ⟨version, time⟩ ::ₘ l.rows s) : l.Only allowed t := by
  intro v hv
  rw [versions, h, Multiset.map_cons] at hv
  rcases Multiset.mem_cons.mp hv with rfl | hv
  · exact hnew
  · exact hs v hv

theorem forget (hs : l.Only allowed s) {version : String}
    (h : l.rows t = (l.rows s).filter (·.version ≠ version)) : l.Only allowed t := by
  intro v hv
  rw [versions_of_filter h] at hv
  exact hs v (Multiset.mem_filter.mp hv).1

end Ledger.Only

namespace Migrator

variable {m : Migrator σ} {l : Ledger σ} {serves : Context σ → Prop} {files : Files}
variable {ctx : Context σ} {s : σ} {allowed : String → Prop}

section Runs

variable (hm : m.Runs l serves) (hh : m.history.Tracks l serves) (hctx : serves ctx)
include hm hh hctx

theorem execute_only {f : MigrationFile} (hf : allowed f.version) (hs : l.Only allowed s) :
    (m.execute files ctx f).Ends s fun _ t => l.Only allowed t := by
  cases hdirection : f.direction with
  | up =>
    refine (execute_ends hm hctx hdirection s).mono fun r t h => ?_
    cases r with
    | error e => exact hs.of_rows h.1
    | ok _ =>
      obtain ⟨⟨time, hrows⟩, -⟩ := h
      exact hs.add hf hrows
  | down =>
    refine (execute_down_ends hm hh hctx hdirection s).mono fun r t h => ?_
    cases r with
    | error e => exact hs.of_rows h.1
    | ok _ => exact hs.forget h.1

theorem proceed_only (total done : Nat) (summary : Summary) {fs : List MigrationFile}
    (hfs : ∀ f ∈ fs, allowed f.version) (hs : l.Only allowed s) :
    (m.proceed files ctx total done summary fs).Ends s fun _ t => l.Only allowed t := by
  induction fs generalizing s done summary with
  | nil => exact hs
  | cons f fs ih =>
    -- a script that fails ends the run, but what it leaves is allowed too
    have hstep : (Action.mapFailure (.migrationFailed f.version done total)
        (m.execute files ctx f)).Ends s fun _ t => l.Only allowed t :=
      .mapFailure (execute_only hm hh hctx (hfs f List.mem_cons_self) hs)
    refine hstep.bind (fun _ _ ht => ht) fun _ _ ht => ?_
    exact ih _ _ (fun g hg => hfs g (List.mem_cons_of_mem _ hg)) ht

theorem run_only {p : Plan} (hp : ∀ f ∈ p.steps, allowed f.version) (hs : l.Only allowed s) :
    (m.run files ctx p).Ends s fun _ t => l.Only allowed t := by
  rw [run]
  split
  · exact hs
  · refine .keeps_bind (hm.confirm p) (fun _ t ht => hs.of_view ht) fun answer t ht => ?_
    cases answer with
    | false => exact hs.of_view ht
    | true => exact proceed_only hm hh hctx _ 0 .empty hp (hs.of_view ht)

/-- An operation that makes a plan from the scripts of the directory and runs it. -/
theorem planned_only (hvalid : ∀ version, Version.validate version = .ok () → allowed version)
    (hs : l.Only allowed s) {planning : Action σ Plan} (hkeeps : planning.Keeps l.view)
    (hplanned : ∀ s, planning.Ends s (m.Planned files (fun _ => ()) s)) :
    ((planning >>= m.run files ctx) >>= fun _ => pure ()).Ends s fun _ t => l.Only allowed t := by
  have hplanning : planning.Ends s fun r t => l.view t = l.view s ∧
      ∀ p, r = .ok p → ∀ f ∈ p.steps, allowed f.version := by
    refine ⟨hkeeps s, fun p hp f hf => ?_⟩
    obtain ⟨scripts, hscripts, hmem⟩ := (hplanned s).2 p hp f hf
    exact hvalid f.version (Files.validate_of_scriptFiles hscripts hmem)
  have hrun : (planning >>= m.run files ctx).Ends s fun _ t => l.Only allowed t :=
    hplanning.bind (fun _ _ h => hs.of_view h.1) fun p _ h =>
      run_only hm hh hctx (h.2 p rfl) (hs.of_view h.1)
  exact hrun.bind (fun _ _ ht => ht) fun _ _ ht => ht

omit hh in
/-- A script that is given as a text leaves the rows alone, and the note after it may rely on what
was recorded before. -/
theorem text_only (hs : l.Only allowed s) (safely : Bool)
    (statements : Except Failure (List String)) (note : Action σ Unit)
    (hnote : ∀ t, l.Only allowed t → note.Ends t fun _ u => l.Only allowed u) :
    (Action.ofExcept statements >>= fun statements => m.runScript ctx safely statements >>=
      fun _ => note).Ends s fun _ t => l.Only allowed t := by
  cases statements with
  | error e => exact hs
  | ok statements =>
    rw [Action.Ends, Action.perform_ofExcept_ok_bind]
    exact Action.Ends.bind (runScript_ends hm hctx safely statements s)
      (fun _ t h => hs.of_rows h.1) fun _ t h => hnote t (hs.of_rows h.1)

end Runs

/-- Asking nothing of the state, a history is quiet. -/
theorem quiet_unit (h : History σ) : h.Quiet (fun _ => ()) :=
  ⟨fun _ _ => rfl, fun _ _ => rfl, fun _ _ _ => rfl, fun _ _ _ => rfl⟩

/-- **One operation** records nothing but versions and what an upgrade was given. -/
theorem operate_only (hm : m.Records l serves) (hctx : serves ctx) (op : Operation)
    (hvalid : ∀ version, Version.validate version = .ok () → allowed version)
    (hgiven : ∀ version script safely, op = .upgrade version script safely → allowed version)
    (hs : l.Only allowed s) : (m.operate files ctx op).Ends s fun _ t => l.Only allowed t := by
  have hquiet := quiet_unit m.history
  have hplanned {planning : Action σ Plan} (hkeeps : planning.Keeps l.view)
      (hplanned : ∀ s, planning.Ends s (m.Planned files (fun _ => ()) s)) :
      ((planning >>= m.run files ctx) >>= fun _ => pure ()).Ends s fun _ t => l.Only allowed t :=
    planned_only hm.runs hm.tracks hctx hvalid hs hkeeps hplanned
  cases op with
  | up limit =>
    exact hplanned (fun s => (planUp_proposes hm.runs hctx limit).1)
      (planUp_planned hquiet files limit)
  | down limit =>
    exact hplanned (planFirst_keeps hm.runs hm.tracks hctx limit ⟨.revert, [], []⟩ _)
      (planDown_planned hquiet files limit)
  | redo limit =>
    exact hplanned (planFirst_keeps hm.runs hm.tracks hctx limit ⟨.redo, [], []⟩ _)
      (planRedo_planned hquiet files limit)
  | moveTo version =>
    exact hplanned (planMove_keeps hm.runs hm.tracks hctx version)
      (planMove_planned hquiet files version)
  | upgrade version script safely =>
    refine .bind (hm.knows ctx hctx version s) (fun e t h => hs.of_view h.1) fun known t h => ?_
    cases known with
    | true => exact hs.of_view h.1
    | false =>
      refine text_only hm.runs hctx (hs.of_view h.1) safely _ _ fun u hu => ?_
      refine (hm.runs.history.insert ctx hctx version u).mono fun r v hv => ?_
      cases r with
      | error e => exact hu.of_rows hv.2
      | ok _ =>
        obtain ⟨-, time, hadded⟩ := hv
        exact hu.add (hgiven version script safely rfl) hadded
  | downgrade version script safely =>
    refine .bind (hm.knows ctx hctx version s) (fun e t h => hs.of_view h.1) fun known t h => ?_
    cases known with
    | false => exact hs.of_view h.1
    | true =>
      refine text_only hm.runs hctx (hs.of_view h.1) safely _ _ fun u hu => ?_
      refine (hm.tracks.remove ctx hctx version u).mono fun r v hv => ?_
      cases r with
      | error e => exact hu.of_rows hv.2
      | ok _ => exact hu.forget hv.2

/-- A schema is not moved to what is no version. -/
theorem moveTo_of_invalid (m : Migrator σ) (files : Files) (ctx : Context σ) {version : String}
    (h : Version.validate version = .error (.invalidVersion version)) (s : σ) :
    (m.moveTo files ctx version).perform s = (.error (.invalidVersion version), s) := by
  have hplan : (m.planMove files ctx version).perform s = (.error (.invalidVersion version), s) := by
    rw [planMove, h]
    rfl
  rw [moveTo, Action.perform_bind_error hplan]

end Migrator

/-! ### Operations one after another -/

/-- What comes of a list of operations one after another: each with a migrator, a directory and a
context of its own, and however it ends.  Between them anything may happen that leaves the rows of
the history alone. -/
inductive Performed (l : Ledger σ) (serves : Context σ → Prop) (s : σ) :
    List Operation → σ → Prop
  | start : Performed l serves s [] s
  | operate {m : Migrator σ} {ops : List Operation} {t : σ} (h : Performed l serves s ops t)
      (hm : m.Records l serves) (files : Files) {ctx : Context σ} (hctx : serves ctx)
      (op : Operation) : Performed l serves s (ops ++ [op]) ((m.operate files ctx op).perform t).2
  | elsewhere {ops : List Operation} {t u : σ} (h : Performed l serves s ops t)
      (hrows : l.rows u = l.rows t) : Performed l serves s ops u

/-- The version was given to an upgrade. -/
def Given (ops : List Operation) (version : String) : Prop :=
  ∃ script safely, .upgrade version script safely ∈ ops

theorem Performed.only {l : Ledger σ} {serves : Context σ → Prop} {s t : σ}
    {ops : List Operation} (h : Performed l serves s ops t) (hempty : l.rows s = 0) :
    l.Only (fun version => Version.validate version = .ok () ∨ Given ops version) t := by
  induction h with
  | start =>
    intro version hversion
    rw [Ledger.versions, hempty] at hversion
    exact absurd hversion (Multiset.notMem_zero _)
  | operate h hm files hctx op ih =>
    refine Migrator.operate_only hm hctx op (fun _ hvalid => .inl hvalid) ?_ fun version hold => ?_
    · rintro version script safely rfl
      exact .inr ⟨script, safely, List.mem_append_right _ (List.mem_singleton_self _)⟩
    · -- what was given before is given in the longer list too
      refine (ih version hold).imp_right ?_
      rintro ⟨script, safely, hmem⟩
      exact ⟨script, safely, List.mem_append_left _ hmem⟩
  | elsewhere h hrows ih => exact ih.of_rows hrows

/-- **What is recorded is a version, unless an upgrade was given something else**: from an empty
history on, whatever operations follow one another, with whatever directories, and wherever they
fail, each recorded version

* can be moved to, and the name of a file can carry it in either direction and with either marker, or
* was given to an upgrade together with a script; then it is no version, every move to it is refused
  and no file carries it. -/
theorem Performed.recorded_versions {l : Ledger σ} {serves : Context σ → Prop} {s t : σ}
    {ops : List Operation} (h : Performed l serves s ops t) (hempty : l.rows s = 0)
    (version : String) (hversion : version ∈ l.versions t) :
    (Version.validate version = .ok () ∧ ∀ safely direction,
      MigrationFile.parse? (MigrationFile.nameOf version safely direction) =
        some ⟨version, safely, direction, MigrationFile.nameOf version safely direction⟩) ∨
    (Given ops version ∧
      (∀ (m : Migrator σ) (files : Files) (ctx : Context σ) (u : σ),
        (m.moveTo files ctx version).perform u = (.error (.invalidVersion version), u)) ∧
      ∀ path f, MigrationFile.parse? path = some f → f.version ≠ version) := by
  by_cases hvalid : Version.validate version = .ok ()
  · exact .inl ⟨hvalid, MigrationFile.parse?_nameOf hvalid⟩
  · have hgiven := (h.only hempty version hversion).resolve_left hvalid
    refine .inr ⟨hgiven, fun m files ctx u => ?_, fun path f hparse heq => ?_⟩
    · exact m.moveTo_of_invalid files ctx (Version.validate_of_not hvalid) u
    · exact hvalid (Version.validate_iff_carried.mpr ⟨path, f, hparse, heq⟩)

/-- An upgrade with a version of its own, and then the scripts of a directory. -/
theorem Performed.recorded_versions_after_upgrade :
    let m := Bench.migrator Bench.telling
    let ctx := Context.ofToken Token.never
    let given := ((m.operate .empty ctx (.upgrade "210330_080000_c" "A" true)).perform
      (.start [])).2
    let both := ((m.operate .withScripts ctx (.up (.count 1))).perform given).2
    both.memory.records.map (·.version) = ["210330_080000_c", "210328_221600_a"] ∧
    Version.validate "210328_221600_a" = .ok () := by
  intro m ctx given both
  let l := Memory.ledger Bench.memoryPart Bench.heardPart
  have hctx : Bench.telling.Serves ctx := fun _ h => nomatch h
  have hgiven : Performed l Bench.telling.Serves (.start []) [.upgrade "210330_080000_c" "A" true]
      given := .operate .start Bench.migrator_records .empty hctx _
  have hboth : Performed l Bench.telling.Serves (.start [])
      ([.upgrade "210330_080000_c" "A" true] ++ [.up (.count 1)]) both :=
    .operate hgiven Bench.migrator_records .withScripts hctx _
  have hrecords : both.memory.records.map (·.version) = ["210330_080000_c", "210328_221600_a"] := by
    decide +kernel
  refine ⟨hrecords, ?_⟩
  have hmem : "210328_221600_a" ∈ l.versions both := by
    show "210328_221600_a" ∈ (both.memory.records : Multiset Applied).map (·.version)
    rw [Multiset.map_coe, hrecords]
    decide
  rcases hboth.recorded_versions rfl _ hmem with ⟨hvalid, -⟩ | ⟨⟨script, safely, hgiven⟩, -⟩
  · exact hvalid
  · simp at hgiven

/-- An upgrade is not asked for a version: it records what it is given, and no move leads there. -/
theorem Performed.upgrade_unchecked :
    let m := Bench.migrator Bench.telling
    let ctx := Context.ofToken Token.never
    let t := ((m.operate .empty ctx (.upgrade "x" "A" false)).perform (.start [])).2
    t.memory.records.map (·.version) = ["x"] ∧
    (∀ path f, MigrationFile.parse? path = some f → f.version ≠ "x") ∧
    ((m.moveTo .empty ctx "x").perform t).1 = .error (.invalidVersion "x") ∧
    ¬∀ (l : Ledger Bench) (serves : Context Bench → Prop) (ops : List Operation) (u : Bench),
      Performed l serves (.start []) ops u → l.rows (.start []) = 0 →
      ∀ version ∈ l.versions u, Version.validate version = .ok () := by
  intro m ctx t
  have hctx : Bench.telling.Serves ctx := fun _ h => nomatch h
  have hrecords : t.memory.records.map (·.version) = ["x"] := by decide +kernel
  have hinvalid : ¬Version.validate "x" = .ok () := by
    rw [Version.validate_eq_ok]
    decide
  refine ⟨hrecords, ?_, ?_, fun hall => ?_⟩
  · exact fun path f hparse heq => hinvalid (Version.validate_iff_carried.mpr ⟨path, f, hparse, heq⟩)
  · rw [m.moveTo_of_invalid .empty ctx (Version.validate_of_not hinvalid) t]
  · refine hinvalid (hall (Memory.ledger Bench.memoryPart Bench.heardPart) Bench.telling.Serves _ t
      (.operate .start Bench.migrator_records .empty hctx (.upgrade "x" "A" false)) rfl "x" ?_)
    show "x" ∈ (t.memory.records : Multiset Applied).map (·.version)
    rw [Multiset.map_coe, hrecords]
    decide

end SchemaMigration
