import SchemaMigration.Proofs.MoveProgress
import SchemaMigration.Proofs.RevertProgress
/-! # Plans that are refused

The versions of a plan that reverts come from the history and the scripts from the directory, so any
of the scripts may be missing.  A plan needs all of them before the first one runs.  If one is
missing, the operation fails for the first version without a script, in the order in which the
scripts would have run, and nothing has happened besides the reading of the history
(`Migrator.Refuses`).  Nobody has been asked then.  Where the operator is asked and says no, nothing
happens either (`Migrator.Declines`). -/
namespace SchemaMigration

variable {σ : Type}

/-! ### The first script that is missing -/

/-- The first version of rows that has no script of a direction. -/
def Catalog.missing (c : Catalog) (d : Direction) (rows : List Applied) : Option String :=
  (rows.find? fun a => (c.get? a.version d).isNone).map (·.version)

namespace Catalog

variable {c : Catalog} {d : Direction} {rows : List Applied}

theorem missing_eq_none_iff : c.missing d rows = none ↔ c.HasAll d rows := by
  rw [missing, Option.map_eq_none_iff, List.find?_eq_none]
  constructor
  · intro h a ha
    have hsome := h a ha
    rwa [Option.isNone_iff_eq_none, ← ne_eq, Option.ne_none_iff_isSome] at hsome
  · intro h a ha hnone
    have hsome := h a ha
    rw [Option.isNone_iff_eq_none.mp hnone] at hsome
    cases hsome

theorem exists_missing (h : ¬ c.HasAll d rows) : ∃ version, c.missing d rows = some version :=
  Option.ne_none_iff_exists'.mp fun hnone => h (missing_eq_none_iff.mp hnone)

/-- What is missing in one of two directions, the first direction first. -/
theorem exists_missing_or {d' : Direction} {rows' : List Applied}
    (h : ¬ (c.HasAll d rows ∧ c.HasAll d' rows')) :
    ∃ version, (c.missing d rows).or (c.missing d' rows') = some version := by
  cases hfirst : c.missing d rows with
  | some version => exact ⟨version, rfl⟩
  | none => exact exists_missing fun hall => h ⟨missing_eq_none_iff.mp hfirst, hall⟩

theorem missing_cons (a : Applied) :
    c.missing d (a :: rows) =
      if (c.get? a.version d).isNone then some a.version else c.missing d rows := by
  rw [missing, List.find?_cons]
  cases (c.get? a.version d).isNone with
  | true => rfl
  | false => rfl

end Catalog

namespace Plan

variable {catalog : Catalog} {rows : List Applied} {version : String}

/-- The look-up of scripts fails for the first one that is missing. -/
theorem scripts_of_missing {d : Direction} (h : catalog.missing d rows = some version) :
    scripts catalog d rows = .error (.migrationNotFound version) := by
  induction rows with
  | nil => cases h
  | cons a rest ih =>
    rw [Catalog.missing_cons] at h
    rw [scripts, List.mapM_cons, script]
    cases hget : catalog.get? a.version d with
    | none =>
      rw [hget] at h
      cases h
      rfl
    | some f =>
      rw [hget] at h
      have hrest := ih h
      rw [scripts] at hrest
      rw [hrest]
      rfl

theorem back_of_missing (h : catalog.missing .down rows = some version) :
    back catalog rows = .error (.migrationNotFound version) := by
  rw [back, scripts_of_missing h]
  rfl

/-- A plan to redo looks for the scripts that revert before those that apply. -/
theorem again_of_missing
    (h : (catalog.missing .down rows).or (catalog.missing .up rows.reverse) = some version) :
    again catalog rows = .error (.migrationNotFound version) := by
  rw [again]
  cases hdown : catalog.missing .down rows with
  | some first =>
    rw [hdown] at h
    cases h
    rw [scripts_of_missing hdown]
    rfl
  | none =>
    rw [hdown] at h
    obtain ⟨downs, hdowns⟩ := scripts_ok (Catalog.missing_eq_none_iff.mp hdown)
    rw [hdowns, scripts_of_missing h]
    rfl

/-- A version that the history does not have cannot be reached without a script that applies it. -/
theorem moveTo_of_missing (hnot : version ∉ rows.map (·.version))
    (hnone : catalog.get? version .up = none) :
    moveTo catalog rows version = .error (.migrationNotFound version) := by
  rcases h : moveTo catalog rows version with e | p
  · rw [moveTo, hnone] at h
    split at h
    · rename_i hany
      obtain ⟨a, ha, hversion⟩ := List.any_eq_true.mp hany
      exact absurd (List.mem_map.mpr ⟨a, ha, by simpa using hversion⟩) hnot
    · exact h.symm
  · obtain ⟨⟨f, hsome⟩, -⟩ := moveTo_of_not_mem hnot h
    rw [hnone] at hsome
    cases hsome

end Plan

namespace Migrator

variable {m : Migrator σ} {l : Ledger σ} {serves : Context σ → Prop} {files : Files}
variable {ctx : Context σ} {catalog : Catalog} {s : σ} {version : String}

/-- An operation is refused for a version.  Whoever is there to be asked, it ends in the state in
which the reading of the history ends, with the rows and the sent statements from before: if the
rows could be read, it fails for the version. -/
def Refuses (m : Migrator σ) (l : Ledger σ) (reading : Action σ (List Applied))
    (operation : Migrator σ → Action σ Summary) (version : String) (s : σ) : Prop :=
  ∀ ask, (operation { m with prompter := ask }).Ends s fun r t => l.view t = l.view s ∧
    match reading.perform s with
    | (.error e, u) => r = .error e ∧ t = u
    | (.ok _, u) => r = .error (.migrationNotFound version) ∧ t = u

/-- An operation is declined.  If its plan has something to do and the operator does not agree, it
ends well with nothing done, and the rows and the sent statements are those from before. -/
def Declines (m : Migrator σ) (l : Ledger σ) (planning : Action σ Plan)
    (operation : Action σ Summary) (s : σ) : Prop :=
  ∀ p t u, planning.perform s = (.ok p, t) → p.isEmpty = false →
    (m.confirm p).perform t = (.ok false, u) →
    operation.perform s = (.ok ⟨[], [], true⟩, u) ∧ l.view u = l.view s

/-- Where no plan can be made of the rows that are read, the operation is refused. -/
theorem refuses_of_reading (files : Files) (ctx : Context σ) (plan : List Applied → Action σ Plan)
    {reading : Action σ (List Applied)} {rows : List Applied}
    {operation : Migrator σ → Action σ Summary}
    (hread : reading.Ends s fun r t => l.view t = l.view s ∧ ∀ read, r = .ok read → read = rows)
    (hplan : ∀ t, (plan rows).perform t = (.error (.migrationNotFound version), t))
    (hoperation : ∀ ask, (operation { m with prompter := ask }).perform s =
      ((reading >>= plan) >>= run { m with prompter := ask } files ctx).perform s) :
    m.Refuses l reading operation version s := by
  intro ask
  rw [Action.Ends, hoperation ask]
  rcases h : reading.perform s with ⟨e | read, t⟩ <;> rw [Action.Ends, h] at hread
  · have hfails : (reading >>= plan).perform s = (.error e, t) := Action.perform_bind_error h
    rw [Action.perform_bind_error hfails]
    exact ⟨hread.1, rfl, rfl⟩
  · obtain rfl := hread.2 read rfl
    have hfails : (reading >>= plan).perform s = (.error (.migrationNotFound version), t) := by
      rw [Action.perform_bind_ok h, hplan t]
    rw [Action.perform_bind_error hfails]
    exact ⟨hread.1, rfl, rfl⟩

theorem declines_of_plan (hm : m.Runs l serves) {planning : Action σ Plan}
    (hplanning : planning.Keeps l.view) :
    m.Declines l planning (planning >>= m.run files ctx) s := by
  intro p t u hplan hempty hconfirm
  refine ⟨?_, ?_⟩
  · rw [Action.perform_bind_ok hplan, run_of_declined hempty hconfirm]
  · rw [(hm.confirm p).of_perform hconfirm, hplanning.of_perform hplan]

section Keeping

variable (hm : m.Runs l serves) (hh : m.history.Tracks l serves) (hctx : serves ctx)
include hm hh hctx

theorem planFirst_keeps (limit : Limit) (idle : Plan)
    (plan : List Applied → Catalog → Except Failure Plan) :
    (m.planFirst files ctx limit idle plan).Keeps l.view := by
  have hread : (m.applied ctx limit).Keeps l.view := by
    refine .bind (hm.history.isCreated ctx hctx) fun created => ?_
    cases created with
    | true => exact fun s => (hh.list ctx hctx _ s).1
    | false => exact .pure _
  refine hread.bind fun rows => ?_
  split
  · exact .pure _
  · exact .bind (.ofExcept _) fun _ => .ofExcept _

theorem planMove_keeps (version : String) : (m.planMove files ctx version).Keeps l.view := by
  have htable : (m.ensureTable ctx).Keeps l.view :=
    ensureTable_keeps (hm.history.isCreated ctx hctx) (hm.history.create ctx hctx)
  have hread : (m.allApplied ctx).Keeps l.view :=
    htable.bind fun _ s => (hh.list ctx hctx 0 s).1
  exact .bind (.ofExcept _) fun _ => hread.bind fun _ => .bind (.ofExcept _) fun _ => .ofExcept _

end Keeping

/-- An operation that plans for the rows it has read is refused if no plan can be made of them. -/
theorem refuses_of_planFirst (idle : Plan) (plan : List Applied → Catalog → Except Failure Plan)
    {limit : Limit} {rows : List Applied} {operation : Migrator σ → Action σ Summary}
    (hscan : files.catalog m.directory = .ok catalog)
    (hread : (m.applied ctx limit).Ends s fun r t => l.view t = l.view s ∧
      ∀ read, r = .ok read → read = rows)
    (hrows : rows ≠ []) (hplan : plan rows catalog = .error (.migrationNotFound version))
    (hoperation : ∀ ask, operation { m with prompter := ask } =
      m.planFirst files ctx limit idle plan >>= run { m with prompter := ask } files ctx) :
    m.Refuses l (m.applied ctx limit) operation version s := by
  refine refuses_of_reading files ctx _ hread ?_ fun ask => congrArg (·.perform s) (hoperation ask)
  intro t
  rw [if_neg (by simpa using hrows), hscan, Action.perform_ofExcept_ok_bind,
    Action.perform_ofExcept, hplan]

section Refusals

variable {listing : List Applied} {limit : Limit} {target : String}
variable (hm : m.Runs l serves) (hh : m.history.Tracks l serves) (hctx : serves ctx)
variable (hscan : files.catalog m.directory = .ok catalog)
variable (hrows : (listing : Multiset Applied) = l.rows s) (hnewest : Applied.Newest listing)
include hm hh hctx hscan hrows hnewest

theorem down_refuses
    (htable : ((m.history.isCreated ctx).perform s).1 = .ok false → listing = [])
    (hmissing : catalog.missing .down (Applied.atMost limit.toNumber listing) = some version) :
    m.Refuses l (m.applied ctx limit) (·.down files ctx limit) version s := by
  have hread := applied_lists hm hh hctx hrows hnewest htable limit
  have hsome : Applied.atMost limit.toNumber listing ≠ [] := by
    intro hnil
    rw [hnil] at hmissing
    cases hmissing
  exact refuses_of_planFirst ⟨.revert, [], []⟩ (fun applied catalog => Plan.back catalog applied)
    hscan hread hsome (Plan.back_of_missing hmissing) fun _ => rfl

theorem redo_refuses
    (htable : ((m.history.isCreated ctx).perform s).1 = .ok false → listing = [])
    (hmissing : (catalog.missing .down (Applied.atMost limit.toNumber listing)).or
      (catalog.missing .up (Applied.atMost limit.toNumber listing).reverse) = some version) :
    m.Refuses l (m.applied ctx limit) (·.redo files ctx limit) version s := by
  have hread := applied_lists hm hh hctx hrows hnewest htable limit
  have hsome : Applied.atMost limit.toNumber listing ≠ [] := by
    intro hnil
    rw [hnil] at hmissing
    cases hmissing
  exact refuses_of_planFirst ⟨.redo, [], []⟩ (fun applied catalog => Plan.again catalog applied)
    hscan hread hsome (Plan.again_of_missing hmissing) fun _ => rfl

theorem moveTo_refuses (hvalid : Version.validate target = .ok ())
    (hplan : Plan.moveTo catalog listing target = .error (.migrationNotFound version)) :
    m.Refuses l (m.allApplied ctx) (·.moveTo files ctx target) version s := by
  have hread := allApplied_shows hm hh hctx hrows hnewest
  refine refuses_of_reading files ctx
    (fun applied => Action.ofExcept (files.catalog m.directory) >>= fun catalog =>
      Action.ofExcept (Plan.moveTo catalog applied target)) hread ?_ ?_
  · intro t
    rw [hscan, Action.perform_ofExcept_ok_bind, Action.perform_ofExcept, hplan]
  · intro ask
    rw [moveTo, planMove, hvalid]
    rfl

/-- **No plan is carried out by half.**  Over every history, every directory that can be read and
every limit, let `first` be the rows that `down` and `redo` are for, and `ahead` those in front of
the version that is to be moved to:

* If one of the versions to be reverted has no down script, or one of those to be applied again has
  no up script, the operation is refused for the first of them, in the order of the run.
* So is a move to a version that the history does not have and that has no up script.
* Where the operator does not agree, nothing is done. -/
theorem refuses_half_plans
    (htable : ((m.history.isCreated ctx).perform s).1 = .ok false → listing = [])
    (limit : Limit) (target : String) :
    let first := Applied.atMost limit.toNumber listing
    let ahead := listing.takeWhile fun a => a.version != target
    (¬ catalog.HasAll .down first → ∃ version, catalog.missing .down first = some version ∧
      m.Refuses l (m.applied ctx limit) (·.down files ctx limit) version s) ∧
    (¬ (catalog.HasAll .down first ∧ catalog.HasAll .up first.reverse) → ∃ version,
      (catalog.missing .down first).or (catalog.missing .up first.reverse) = some version ∧
        m.Refuses l (m.applied ctx limit) (·.redo files ctx limit) version s) ∧
    (Version.validate target = .ok () →
      (target ∈ listing.map (·.version) → ¬ catalog.HasAll .down ahead → ∃ version,
        catalog.missing .down ahead = some version ∧
          m.Refuses l (m.allApplied ctx) (·.moveTo files ctx target) version s) ∧
      (target ∉ listing.map (·.version) → catalog.get? target .up = none →
        m.Refuses l (m.allApplied ctx) (·.moveTo files ctx target) target s)) ∧
    m.Declines l (m.planDown files ctx limit) (m.down files ctx limit) s ∧
    m.Declines l (m.planRedo files ctx limit) (m.redo files ctx limit) s ∧
    m.Declines l (m.planMove files ctx target) (m.moveTo files ctx target) s := by
  intro first ahead
  refine ⟨fun hnot => ?_, fun hnot => ?_, fun hvalid => ⟨fun hmem hnot => ?_, fun hnot hnone => ?_⟩,
    ?_, ?_, ?_⟩
  · obtain ⟨version, hmissing⟩ := Catalog.exists_missing hnot
    exact ⟨version, hmissing, down_refuses hm hh hctx hscan hrows hnewest htable hmissing⟩
  · obtain ⟨version, hmissing⟩ := Catalog.exists_missing_or hnot
    exact ⟨version, hmissing, redo_refuses hm hh hctx hscan hrows hnewest htable hmissing⟩
  · obtain ⟨version, hmissing⟩ := Catalog.exists_missing hnot
    refine ⟨version, hmissing, moveTo_refuses hm hh hctx hscan hrows hnewest hvalid ?_⟩
    rw [Plan.moveTo_of_mem hmem, Plan.back_of_missing hmissing]
  · have hplan := Plan.moveTo_of_missing hnot hnone
    exact moveTo_refuses hm hh hctx hscan hrows hnewest hvalid hplan
  · exact declines_of_plan hm (planFirst_keeps hm hh hctx limit ⟨.revert, [], []⟩ _)
  · exact declines_of_plan hm (planFirst_keeps hm hh hctx limit ⟨.redo, [], []⟩ _)
  · exact declines_of_plan hm (planMove_keeps hm hh hctx target)

end Refusals

end Migrator

/-- A migrator on a bench whose operator says no to everything. -/
def Bench.hesitant : Migrator Bench :=
  { migrator telling with prompter := some fun _ => pure false }

theorem Bench.hesitant_runs :
    hesitant.Runs (Memory.ledger memoryPart heardPart) telling.Serves where
  history := migrator_runs.history
  journal := migrator_runs.journal
  confirm _ := .pure _

/-- Of two migrations the later one has no scripts, so `down` is refused for it without a question.
The earlier one alone could be reverted, and then the operator says no. -/
theorem Migrator.refuses_half_plans_unpaired :
    let m := Bench.hesitant
    let l := Memory.ledger Bench.memoryPart Bench.heardPart
    let s := Bench.holding ["210328_221600_a", "210330_090000_c"]
    let s' := Bench.holding ["210328_221600_a"]
    (m.down .withPairs (.ofToken .never) .all).perform s =
      (.error (.migrationNotFound "210330_090000_c"), s) ∧
    (m.down .withPairs (.ofToken .never) .all).Ends s' fun r t =>
      r = .ok ⟨[], [], true⟩ ∧ l.view t = l.view s' := by
  intro m l s s'
  have hctx : Bench.telling.Serves (.ofToken .never) := fun _ h => nomatch h
  have hlisting (s : Bench) : (s.memory.listing : Multiset Applied) = l.rows s :=
    Multiset.coe_eq_coe.mpr (List.mergeSort_perm _ _)
  obtain ⟨catalog, hscan, hnot, hmissing⟩ : ∃ catalog, Files.withPairs.catalog "/" = .ok catalog ∧
      ¬ catalog.HasAll .down s.memory.listing ∧
      catalog.missing .down s.memory.listing = some "210330_090000_c" := by
    simp only [Memory.listing, Applied.newestFirst_eq_insertionSort]
    exact Failure.ok_of_any (by decide +kernel)
  constructor
  · obtain ⟨hdown, -⟩ := refuses_half_plans Bench.hesitant_runs Bench.migrator_tracks hctx hscan
      (hlisting s) (Applied.newest_newestFirst _) nofun .all "210328_221600_a"
    obtain ⟨version, hfirst, hrefuses⟩ := hdown hnot
    obtain rfl : version = "210330_090000_c" := Option.some.inj (hfirst.symm.trans hmissing)
    obtain ⟨-, hanswer, hstate⟩ := hrefuses m.prompter
    exact Prod.ext hanswer hstate
  · obtain ⟨-, -, -, hdeclines, -⟩ := refuses_half_plans Bench.hesitant_runs Bench.migrator_tracks
      hctx hscan (hlisting s') (Applied.newest_newestFirst _) nofun .all "210328_221600_a"
    have hplanned : ((m.planDown .withPairs (.ofToken .never) .all).perform s').1.toOption.any
        (fun p => !p.isEmpty) = true := by decide +kernel
    rcases hplan : (m.planDown .withPairs (.ofToken .never) .all).perform s' with ⟨e | p, t⟩ <;>
      rw [hplan] at hplanned
    · cases hplanned
    have hempty : p.isEmpty = false := (Bool.not_eq_true' _).mp hplanned
    obtain ⟨hanswer, hview⟩ := hdeclines p t t hplan hempty rfl
    rw [Action.Ends, hanswer]
    exact ⟨rfl, hview⟩

end SchemaMigration
