import SchemaMigration.Migrator
import SchemaMigration.Proofs.ActionFrames
import SchemaMigration.Proofs.CatalogOrder
/-! # Planning

A plan is made of what the history answers and of what stands in the directory.  Neither is
changed by it, except that the history table may be made, and a plan never holds a script that
does not stand in the directory. -/
namespace SchemaMigration

variable {σ β : Type}

/-! ### The scripts of a plan -/

theorem Limit.mem_of_mem_truncate {α : Type} {limit : Limit} {xs : List α} {x : α}
    (h : x ∈ limit.truncate xs) : x ∈ xs := by
  cases limit with
  | all => exact h
  | count n => exact List.mem_of_mem_take h

theorem Limit.truncate_eq_take {α : Type} (limit : Limit) (xs : List α) :
    limit.truncate xs = xs.take (limit.truncate xs).length := by
  cases limit with
  | all => exact List.take_length.symm
  | count n =>
    show xs.take n = xs.take (xs.take n).length
    rw [List.length_take, List.take_eq_take_min]

theorem Limit.length_truncate_le {α : Type} (limit : Limit) (xs : List α) :
    (limit.truncate xs).length ≤ xs.length := by
  cases limit with
  | all => exact le_refl _
  | count n => exact List.length_take_le' n xs

theorem Limit.truncate_sublist {α : Type} (limit : Limit) (xs : List α) :
    (limit.truncate xs).Sublist xs := by
  rw [truncate_eq_take]
  exact List.take_sublist _ _

/-- Every row has a script of the direction. -/
def Catalog.HasAll (c : Catalog) (d : Direction) (rows : List Applied) : Prop :=
  ∀ a ∈ rows, (c.get? a.version d).isSome

instance (c : Catalog) (d : Direction) (rows : List Applied) : Decidable (c.HasAll d rows) :=
  inferInstanceAs (Decidable (∀ a ∈ rows, (c.get? a.version d).isSome))

/-- The scripts of a direction that belong to rows, in the order of the rows. -/
structure Catalog.Scripts (c : Catalog) (d : Direction) (rows : List Applied)
    (fs : List MigrationFile) : Prop where
  versions : fs.map (·.version) = rows.map (·.version)
  mem : ∀ f ∈ fs, f ∈ c.scripts d

theorem Catalog.Scripts.length_eq {c : Catalog} {d : Direction} {rows : List Applied}
    {fs : List MigrationFile} (h : c.Scripts d rows fs) : fs.length = rows.length := by
  have hlength := congrArg List.length h.versions
  rwa [List.length_map, List.length_map] at hlength

theorem Catalog.Scripts.nil (c : Catalog) (d : Direction) : c.Scripts d [] [] := ⟨rfl, nofun⟩

/-- The scripts of a directory have the direction under which they are found. -/
theorem Catalog.Scripts.direction_eq {files : Files} {directory : String} {c : Catalog}
    {d : Direction} {rows : List Applied} {fs : List MigrationFile}
    (hscan : files.catalog directory = .ok c) (h : c.Scripts d rows fs) :
    ∀ f ∈ fs, f.direction = d := by
  obtain ⟨_, _, hholds⟩ := Files.catalog_holds hscan
  exact fun f hf => ((hholds.mem d f).mp (h.mem f hf)).2

/-- A plan runs scripts of a catalog only. -/
def Plan.From (c : Catalog) (p : Plan) : Prop := ∀ f ∈ p.steps, ∃ d, f ∈ c.scripts d

namespace Plan

variable {catalog : Catalog} {applied : List Applied} {p : Plan}

theorem mem_of_scripts {d : Direction} {fs : List MigrationFile}
    (h : scripts catalog d applied = .ok fs) {f : MigrationFile} (hf : f ∈ fs) :
    f ∈ catalog.scripts d := by
  induction applied generalizing fs with
  | nil =>
    cases h
    exact absurd hf List.not_mem_nil
  | cons a rest ih =>
    rw [scripts, List.mapM_cons] at h
    cases hget : catalog.get? a.version d with
    | none =>
      rw [script, hget] at h
      cases h
    | some g =>
      rw [script, hget] at h
      cases hrest : scripts catalog d rest with
      | error e =>
        rw [← scripts, hrest] at h
        cases h
      | ok gs =>
        rw [← scripts, hrest] at h
        cases h
        -- the first script is the one that was looked up, the others are those of the rest
        rcases List.mem_cons.mp hf with rfl | hf
        · exact List.mem_of_find?_eq_some hget
        · exact ih hrest hf

theorem version_of_get? {d : Direction} {version : String} {f : MigrationFile}
    (h : catalog.get? version d = some f) : f.version = version := by
  simpa using List.find?_some h

theorem versions_of_scripts {d : Direction} {fs : List MigrationFile}
    (h : scripts catalog d applied = .ok fs) :
    fs.map (·.version) = applied.map (·.version) := by
  induction applied generalizing fs with
  | nil =>
    cases h
    rfl
  | cons a rest ih =>
    rw [scripts, List.mapM_cons] at h
    cases hget : catalog.get? a.version d with
    | none =>
      rw [script, hget] at h
      cases h
    | some g =>
      rw [script, hget] at h
      cases hrest : scripts catalog d rest with
      | error e =>
        rw [← scripts, hrest] at h
        cases h
      | ok gs =>
        rw [← scripts, hrest] at h
        cases h
        rw [List.map_cons, List.map_cons, version_of_get? hget, ih hrest]

theorem scripts_of_ok {d : Direction} {fs : List MigrationFile}
    (h : scripts catalog d applied = .ok fs) : catalog.Scripts d applied fs :=
  ⟨versions_of_scripts h, fun _ => mem_of_scripts h⟩

theorem back_of_ok (h : back catalog applied = .ok p) :
    catalog.Scripts .down applied p.downs ∧ p.ups = [] := by
  cases hdowns : scripts catalog .down applied with
  | error e =>
    rw [back, hdowns] at h
    cases h
  | ok downs =>
    rw [back, hdowns] at h
    cases h
    exact ⟨scripts_of_ok hdowns, rfl⟩

theorem again_of_ok (h : again catalog applied = .ok p) :
    catalog.Scripts .down applied p.downs ∧ catalog.Scripts .up applied.reverse p.ups := by
  cases hdowns : scripts catalog .down applied with
  | error e =>
    rw [again, hdowns] at h
    cases h
  | ok downs =>
    cases hups : scripts catalog .up applied.reverse with
    | error e =>
      rw [again, hdowns, hups] at h
      cases h
    | ok ups =>
      rw [again, hdowns, hups] at h
      cases h
      exact ⟨scripts_of_ok hdowns, scripts_of_ok hups⟩

/-- Scripts that are all there are found. -/
theorem scripts_ok {d : Direction} (h : catalog.HasAll d applied) :
    ∃ fs, scripts catalog d applied = .ok fs := by
  induction applied with
  | nil => exact ⟨[], rfl⟩
  | cons a rest ih =>
    obtain ⟨fs, hfs⟩ := ih fun b hb => h b (List.mem_cons_of_mem _ hb)
    obtain ⟨f, hget⟩ := Option.isSome_iff_exists.mp (h a List.mem_cons_self)
    refine ⟨f :: fs, ?_⟩
    rw [scripts, List.mapM_cons, script, hget, ← scripts, hfs]
    rfl

theorem pending_sublist : (pending catalog applied).Sublist catalog.ups := List.filter_sublist

theorem pending_from {f : MigrationFile} (h : f ∈ pending catalog applied) :
    ∃ d, f ∈ catalog.scripts d := ⟨.up, (List.mem_filter.mp h).1⟩

theorem forward_from (limit : Limit) : (forward catalog applied limit).From catalog :=
  fun _ hf => pending_from (Limit.mem_of_mem_truncate hf)

theorem back_from (h : back catalog applied = .ok p) : p.From catalog := by
  obtain ⟨hdowns, hups⟩ := back_of_ok h
  intro f hf
  rw [steps, hups, List.append_nil] at hf
  exact ⟨.down, hdowns.mem f hf⟩

theorem again_from (h : again catalog applied = .ok p) : p.From catalog := by
  obtain ⟨hdowns, hups⟩ := again_of_ok h
  intro f hf
  rcases List.mem_append.mp hf with hf | hf
  · exact ⟨.down, hdowns.mem f hf⟩
  · exact ⟨.up, hups.mem f hf⟩

theorem moveTo_from {version : String} (h : moveTo catalog applied version = .ok p) :
    p.From catalog := by
  rw [moveTo] at h
  split at h
  · exact back_from h
  · split at h <;> cases h
    exact fun f hf => pending_from (List.mem_filter.mp hf).1

end Plan

/-! ### Making a plan -/

/-- What a history is asked, and the making of its table, leave a view alone. -/
structure History.Quiet (h : History σ) (view : σ → β) : Prop where
  isCreated : ∀ ctx, (h.isCreated ctx).Keeps view
  create : ∀ ctx, (h.create ctx).Keeps view
  list : ∀ ctx limit, (h.list ctx limit).Keeps view
  contains : ∀ ctx version, (h.contains ctx version).Keeps view

namespace Migrator

variable {m : Migrator σ} {ctx : Context σ} {view : σ → β}

/-- A plan for `up` is made of the rows that were read. -/
theorem planUp_ok {files : Files} {catalog : Catalog} {limit : Limit} {s t : σ} {p : Plan}
    (hscan : files.catalog m.directory = .ok catalog)
    (h : (m.planUp files ctx limit).perform s = (.ok p, t)) :
    ∃ applied, (m.allApplied ctx).perform s = (.ok applied, t) ∧
      p = Plan.forward catalog applied limit := by
  rw [planUp] at h
  rcases happlied : (m.allApplied ctx).perform s with ⟨e | applied, v⟩
  · rw [Action.perform_bind_error happlied] at h
    cases h
  · rw [Action.perform_bind_ok happlied, hscan, Action.perform_ofExcept_ok_bind] at h
    cases h
    exact ⟨applied, rfl, rfl⟩

/-- The pending scripts are made of the rows that were read. -/
theorem pending_ok {files : Files} {limit : Limit} {s t : σ} {fs : List MigrationFile}
    (h : (m.pending files ctx limit).perform s = (.ok fs, t)) :
    ∃ applied catalog, (m.applied ctx .all).perform s = (.ok applied, t) ∧
      files.catalog m.directory = .ok catalog ∧
      fs = limit.truncate (Plan.pending catalog applied) := by
  rw [pending] at h
  rcases happlied : (m.applied ctx .all).perform s with ⟨e | applied, v⟩
  · rw [Action.perform_bind_error happlied] at h
    cases h
  · rw [Action.perform_bind_ok happlied] at h
    rcases hscan : files.catalog m.directory with e | catalog
    · rw [hscan] at h
      cases h
    · rw [hscan, Action.perform_ofExcept_ok_bind] at h
      cases h
      exact ⟨applied, catalog, rfl, rfl, rfl⟩

theorem ensureTable_keeps (hcreated : (m.history.isCreated ctx).Keeps view)
    (hcreate : (m.history.create ctx).Keeps view) : (m.ensureTable ctx).Keeps view := by
  refine .bind hcreated fun created => ?_
  cases created
  · exact hcreate
  · exact .pure _

/-- A plan that was made without touching the view, from scripts of the directory. -/
def Planned (m : Migrator σ) (files : Files) (view : σ → β) (s : σ)
    (r : Except Failure Plan) (t : σ) : Prop :=
  view t = view s ∧ ∀ p, r = .ok p → ∀ f ∈ p.steps,
    ∃ scripts, files.scriptFiles m.directory = .ok scripts ∧ f ∈ scripts

theorem planned_of_catalog (m : Migrator σ) (files : Files)
    (plan : Catalog → Except Failure Plan)
    (hplan : ∀ catalog p, plan catalog = .ok p → p.From catalog) {s t : σ}
    (ht : view t = view s) :
    (Action.ofExcept (files.catalog m.directory) >>= fun catalog =>
      Action.ofExcept (plan catalog)).Ends t (m.Planned files view s) := by
  cases hscan : files.catalog m.directory with
  | error e => exact ⟨ht, nofun⟩
  | ok catalog =>
    rw [Action.Ends, Action.perform_ofExcept_ok_bind, Action.perform_ofExcept]
    refine ⟨ht, fun p hp f hf => ?_⟩
    obtain ⟨scripts, hscripts, hholds⟩ := Files.catalog_holds hscan
    obtain ⟨d, hmem⟩ := hplan catalog p hp f hf
    exact ⟨scripts, hscripts, ((hholds.mem d f).mp hmem).1⟩

section
variable (hm : m.history.Quiet view) (files : Files)
include hm

theorem allApplied_keeps (ctx : Context σ) : (m.allApplied ctx).Keeps view :=
  .bind (ensureTable_keeps (hm.isCreated ctx) (hm.create ctx)) fun _ => hm.list ctx 0

theorem applied_keeps (ctx : Context σ) (limit : Limit) : (m.applied ctx limit).Keeps view := by
  refine .bind (hm.isCreated ctx) fun created => ?_
  cases created
  · exact .pure _
  · exact hm.list ctx _

/-- A plan for the migrations that were applied last; without any, there is nothing to do. -/
theorem planned_of_applied (idle : Plan) (hidle : idle.steps = [])
    (plan : List Applied → Catalog → Except Failure Plan)
    (hplan : ∀ applied catalog p, plan applied catalog = .ok p → p.From catalog) (limit : Limit)
    (s : σ) :
    (m.applied ctx limit >>= fun applied =>
      if applied.isEmpty then pure idle
      else Action.ofExcept (files.catalog m.directory) >>= fun catalog =>
        Action.ofExcept (plan applied catalog)).Ends s (m.Planned files view s) := by
  refine .keeps_bind (applied_keeps hm ctx limit) (fun _ t ht => ⟨ht, nofun⟩)
    fun applied t ht => ?_
  split
  · refine ⟨ht, ?_⟩
    rintro _ ⟨⟩ f hf
    rw [hidle] at hf
    exact absurd hf List.not_mem_nil
  · exact m.planned_of_catalog files (plan applied) (hplan applied) ht

theorem planUp_planned (limit : Limit) (s : σ) :
    (m.planUp files ctx limit).Ends s (m.Planned files view s) := by
  refine .keeps_bind (allApplied_keeps hm ctx) (fun _ t ht => ⟨ht, nofun⟩) fun applied t ht => ?_
  refine m.planned_of_catalog files (fun catalog => .ok (.forward catalog applied limit)) ?_ ht
  rintro catalog p ⟨⟩
  exact Plan.forward_from limit

theorem planDown_planned (limit : Limit) (s : σ) :
    (m.planDown files ctx limit).Ends s (m.Planned files view s) :=
  planned_of_applied hm files ⟨.revert, [], []⟩ rfl
    (fun applied catalog => Plan.back catalog applied) (fun _ _ _ => Plan.back_from) limit s

theorem planRedo_planned (limit : Limit) (s : σ) :
    (m.planRedo files ctx limit).Ends s (m.Planned files view s) :=
  planned_of_applied hm files ⟨.redo, [], []⟩ rfl
    (fun applied catalog => Plan.again catalog applied) (fun _ _ _ => Plan.again_from) limit s

theorem planMove_planned (version : String) (s : σ) :
    (m.planMove files ctx version).Ends s (m.Planned files view s) := by
  refine .keeps_bind (.ofExcept _) (fun _ t ht => ⟨ht, nofun⟩) fun _ t ht => ?_
  refine .keeps_bind (allApplied_keeps hm ctx) (fun _ u hu => ⟨hu.trans ht, nofun⟩)
    fun applied u hu => ?_
  exact m.planned_of_catalog files (Plan.moveTo · applied version)
    (fun _ _ => Plan.moveTo_from) (hu.trans ht)

end

end Migrator

end SchemaMigration
