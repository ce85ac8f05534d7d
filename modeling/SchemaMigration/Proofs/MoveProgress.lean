import SchemaMigration.Proofs.HistoryClock
import SchemaMigration.Proofs.UpProgress
/-! # The progress of a move

Where a move to a version leads.  A version that the history has is reached by reverting the rows
in front of it, and another one by applying what is outstanding up to it.  Reverting goes by the
order of the listing and applying by the order of the versions, but in the end the version is the
first one of the listing in both cases, if the clock has not gone back
(`Migrator.move_progress`). -/
namespace SchemaMigration

variable {σ : Type}

namespace Plan

variable {catalog : Catalog} {listing : List Applied} {version : String}

/-- A version that the history has: the rows in front of it are reverted. -/
theorem moveTo_of_mem (h : version ∈ listing.map (·.version)) :
    moveTo catalog listing version =
      back catalog (listing.takeWhile fun a => a.version != version) := by
  obtain ⟨a, ha, hversion⟩ := List.mem_map.mp h
  exact if_pos (List.any_eq_true.mpr ⟨a, ha, by simpa using hversion⟩)

/-- A version that the history does not have: what is outstanding up to it is applied. -/
theorem moveTo_of_not_mem (h : version ∉ listing.map (·.version)) {p : Plan}
    (hp : moveTo catalog listing version = .ok p) :
    (∃ f, catalog.get? version .up = some f) ∧
      p = ⟨.apply, [], (pending catalog listing).filter fun f => !(version < f.version)⟩ := by
  have hnone : ¬ (listing.any fun a => a.version == version) = true := by
    intro hany
    obtain ⟨a, ha, hversion⟩ := List.any_eq_true.mp hany
    exact h (List.mem_map.mpr ⟨a, ha, by simpa using hversion⟩)
  rw [moveTo, if_neg hnone] at hp
  cases hget : catalog.get? version .up with
  | none =>
    rw [hget] at hp
    cases hp
  | some f =>
    rw [hget] at hp
    cases hp
    exact ⟨⟨f, rfl⟩, rfl⟩

/-- At the version that comes first there is nothing to do. -/
theorem moveTo_first {a : Applied} {rest : List Applied} (h : a.version = version) :
    moveTo catalog (a :: rest) version = .ok ⟨.revert, [], []⟩ := by
  rw [moveTo_of_mem (List.mem_cons.mpr (.inl h.symm)), List.takeWhile_cons_of_neg (by simp [h])]
  rfl

end Plan

/-- The rows from a version on begin with it. -/
theorem Applied.dropWhile_first {listing : List Applied} {version : String}
    (h : version ∈ listing.map (·.version)) : ∃ a rest,
      listing.dropWhile (fun a => a.version != version) = a :: rest ∧ a.version = version := by
  induction listing with
  | nil => cases h
  | cons a listing ih =>
    by_cases ha : a.version = version
    · exact ⟨a, listing, List.dropWhile_cons_of_neg (by simp [ha]), ha⟩
    · rw [List.dropWhile_cons_of_pos (by simpa using ha)]
      exact ih ((List.mem_cons.mp h).resolve_left (Ne.symm ha))

/-- The greatest of ascending versions stands last. -/
theorem Catalog.Ascending.last {fs : List MigrationFile} (h : Catalog.Ascending fs)
    {f : MigrationFile} (hf : f ∈ fs) (hle : ∀ g ∈ fs, g.version ≤ f.version) :
    ∃ before, fs = before ++ [f] := by
  obtain ⟨before, after, rfl⟩ := List.append_of_mem hf
  have hafter : after = [] := by
    refine List.eq_nil_iff_forall_not_mem.mpr fun g hg => ?_
    have hlt : f.version < g.version :=
      (List.pairwise_cons.mp (List.pairwise_append.mp h).2.1).1 g hg
    exact absurd hlt (not_lt.mpr (hle g (by simp [hg])))
  exact ⟨before, by rw [hafter]⟩

/-- The script of a version that the history does not have is outstanding, and of what is
outstanding up to the version it stands last. -/
theorem Plan.pending_upTo_last {catalog : Catalog} {listing : List Applied} {version : String}
    {f : MigrationFile} (hget : catalog.get? version .up = some f)
    (hnot : version ∉ listing.map (·.version))
    (hascending : Catalog.Ascending (pending catalog listing)) :
    ∃ before, (pending catalog listing).filter (fun f => !(version < f.version)) =
      before ++ [f] := by
  have hversion : f.version = version := version_of_get? hget
  have hpending : f ∈ pending catalog listing := by
    rw [pending, List.mem_filter, Bool.not_eq_true', List.any_eq_false]
    refine ⟨List.mem_of_find?_eq_some hget, fun a ha heq => ?_⟩
    refine hnot (List.mem_map.mpr ⟨a, ha, ?_⟩)
    rw [← hversion]
    simpa using heq
  refine Catalog.Ascending.last (hascending.filter _)
    (List.mem_filter.mpr ⟨hpending, by simp [hversion]⟩) fun g hg => ?_
  have hbound := (List.mem_filter.mp hg).2
  rw [Bool.not_eq_true', decide_eq_false_iff_not] at hbound
  exact hversion ▸ not_lt.mp hbound

/-- The row that was added last stands first. -/
theorem Applied.first_of_last {again : List Applied} {before : List String} {version : String}
    (h : again.map (·.version) = before ++ [version]) (listing : List Applied) :
    ∃ a rest, again.reverse ++ listing = a :: rest ∧ a.version = version := by
  obtain ⟨first, last, rfl, -, hmap⟩ := List.map_eq_append_iff.mp h
  obtain ⟨a, rfl, ha⟩ := List.map_eq_singleton_iff.mp hmap
  refine ⟨a, first.reverse ++ listing, ?_, ha⟩
  rw [List.reverse_append, List.append_assoc]
  rfl

namespace Migrator

variable {m : Migrator σ} {l : Ledger σ} {now : σ → Int} {serves : Context σ → Prop}
variable {files : Files} {ctx : Context σ} {version : String} {listing : List Applied}

/-! ### Making the plan -/

theorem allApplied_shows (hm : m.Runs l serves) (hh : m.history.Tracks l serves)
    (hctx : serves ctx) {s : σ} (hrows : (listing : Multiset Applied) = l.rows s)
    (hnewest : Applied.Newest listing) :
    (m.allApplied ctx).Ends s fun r t => l.view t = l.view s ∧
      ∀ applied, r = .ok applied → applied = listing := by
  have htable : (m.ensureTable ctx).Keeps l.view :=
    ensureTable_keeps (hm.history.isCreated ctx hctx) (hm.history.create ctx hctx)
  refine .keeps_bind htable (fun _ _ ht => ⟨ht, nofun⟩) fun _ t ht => ?_
  refine (hh.list ctx hctx 0 t).mono fun r u ⟨hu, hlist⟩ => ⟨hu.trans ht, fun applied hr => ?_⟩
  obtain ⟨rows, hrows', hall, rfl⟩ := hlist applied hr
  refine hrows'.eq_of_coe_eq hnewest ?_
  rw [hall, (Prod.mk.inj ht).1, hrows]

theorem allApplied_advances (ht : m.Timed l now serves) (hctx : serves ctx) :
    (m.allApplied ctx).Advances now := by
  refine .bind (.bind (ht.history.isCreated ctx hctx) fun created => ?_) fun _ =>
    ht.history.list ctx hctx 0
  cases created with
  | true => exact .pure _
  | false => exact ht.history.create ctx hctx

/-- A plan for a move is made of the listing and the directory. -/
theorem planMove_ok (hm : m.Runs l serves) (hh : m.history.Tracks l serves)
    (ht : m.Timed l now serves) (hctx : serves ctx) {s t : σ} {p : Plan}
    (hrows : (listing : Multiset Applied) = l.rows s) (hnewest : Applied.Newest listing)
    (h : (m.planMove files ctx version).perform s = (.ok p, t)) :
    l.view t = l.view s ∧ now s ≤ now t ∧ Version.validate version = .ok () ∧
      ∃ catalog, files.catalog m.directory = .ok catalog ∧
        Plan.moveTo catalog listing version = .ok p := by
  rw [planMove] at h
  cases hvalid : Version.validate version with
  | error e =>
    rw [hvalid] at h
    cases h
  | ok _ =>
    rw [hvalid, Action.perform_ofExcept_ok_bind] at h
    have hends := allApplied_shows hm hh hctx hrows hnewest
    rcases happlied : (m.allApplied ctx).perform s with ⟨e | applied, u⟩
    · rw [Action.perform_bind_error happlied] at h
      cases h
    rw [Action.Ends, happlied] at hends
    obtain ⟨hview, hlisting⟩ := hends
    obtain rfl := hlisting applied rfl
    have hnow : now s ≤ now u := (allApplied_advances ht hctx).of_perform happlied
    rw [Action.perform_bind_ok happlied] at h
    cases hscan : files.catalog m.directory with
    | error e =>
      rw [hscan] at h
      cases h
    | ok catalog =>
      rw [hscan, Action.perform_ofExcept_ok_bind, Action.perform_ofExcept] at h
      obtain ⟨hp, rfl⟩ := Prod.mk.inj h
      exact ⟨hview, hnow, rfl, catalog, rfl, hp⟩

/-! ### Carrying it out -/

/-- A move back: the rows in front of the version were reverted, in the order of the listing, and
no script was applied. -/
structure WentBack (m : Migrator σ) (l : Ledger σ) (files : Files) (version : String)
    (listing : List Applied) (s : σ) (summary : Summary) (u : σ) (listing' : List Applied) :
    Prop where
  summary : summary = ⟨(listing.takeWhile fun a => a.version != version).map (·.version), [], false⟩
  remains : listing' = listing.dropWhile fun a => a.version != version
  sent : ∃ catalog downs, files.catalog m.directory = .ok catalog ∧
    catalog.Scripts .down (listing.takeWhile fun a => a.version != version) downs ∧
    l.sent u = l.sent s ++ downs.flatMap (·.statementsOf files)

/-- A move on with the scripts `ups`: what was outstanding up to the version was applied, in
ascending order, and nothing was reverted. -/
structure WentOn (m : Migrator σ) (l : Ledger σ) (files : Files) (version : String)
    (listing : List Applied) (s : σ) (summary : Summary) (u : σ) (listing' : List Applied)
    (ups : List MigrationFile) : Prop where
  outstanding : ∃ pending, Outstanding l files m.directory s pending ∧
    ups = pending.filter fun f => !(version < f.version)
  summary : summary = ⟨[], ups.map (·.version), false⟩
  remains : ∃ again : List Applied, again.map (·.version) = ups.map (·.version) ∧
    listing' = again.reverse ++ listing
  sent : l.sent u = l.sent s ++ ups.flatMap (·.statementsOf files)

theorem agreed_advances (ht : m.Timed l now serves) (p : Plan) (s : σ) :
    now s ≤ now (m.agreed p s) := by
  rw [agreed]
  split
  · exact le_refl _
  · exact ht.confirm p s

/-- A move that succeeds has run its plan to the end. -/
theorem moveTo_course (hm : m.Runs l serves) (hh : m.history.Tracks l serves)
    (ht : m.Timed l now serves) (hctx : serves ctx) {s u : σ} {summary : Summary}
    (hrows : (listing : Multiset Applied) = l.rows s) (hnewest : Applied.Newest listing)
    (h : (m.moveTo files ctx version).perform s = (.ok summary, u))
    (hdeclined : summary.declined = false) :
    Version.validate version = .ok () ∧ ∃ catalog p s', files.catalog m.directory = .ok catalog ∧
      Plan.moveTo catalog listing version = .ok p ∧ l.view s' = l.view s ∧ now s ≤ now s' ∧
      Course m files ctx s' p.steps u ∧ summary = p.steps.foldl Summary.add .empty := by
  rw [moveTo] at h
  rcases hplan : (m.planMove files ctx version).perform s with ⟨e | p, t⟩
  · rw [Action.perform_bind_error hplan] at h
    cases h
  · rw [Action.perform_bind_ok hplan] at h
    obtain ⟨hview, hnow, hvalid, catalog, hscan, hp⟩ :=
      planMove_ok hm hh ht hctx hrows hnewest hplan
    rw [run_eq_proceed (agrees_of_run h hdeclined)] at h
    obtain ⟨hcourse, hsummary⟩ := course_of_proceed_ok h
    refine ⟨hvalid, catalog, p, m.agreed p t, hscan, hp, ?_, ?_, hcourse, hsummary⟩
    · exact (hm.view_agreed p t).trans hview
    · exact le_trans hnow (agreed_advances ht p t)

/-- The move back to a version that the history has. -/
theorem wentBack_of_course (hm : m.Runs l serves) (hh : m.history.Tracks l serves)
    (hctx : serves ctx) {catalog : Catalog} (hscan : files.catalog m.directory = .ok catalog)
    {p : Plan} {s s' u : σ} (hrows : (listing : Multiset Applied) = l.rows s)
    (hdistinct : (listing.map (·.version)).Nodup) (hmem : version ∈ listing.map (·.version))
    (hp : Plan.moveTo catalog listing version = .ok p) (hview : l.view s' = l.view s)
    (h : Course m files ctx s' p.steps u) :
    let listing' := listing.dropWhile fun a => a.version != version
    (listing' : Multiset Applied) = l.rows u ∧
      m.WentBack l files version listing s (p.steps.foldl Summary.add .empty) u listing' := by
  intro listing'
  rw [Plan.moveTo_of_mem hmem] at hp
  obtain ⟨hdowns, hups⟩ := Plan.back_of_ok hp
  have hsteps : p.steps = p.downs := by rw [Plan.steps, hups, List.append_nil]
  rw [hsteps] at h ⊢
  have hdown := hdowns.direction_eq hscan
  obtain ⟨hrows', hsent'⟩ := Prod.mk.inj hview
  refine ⟨?_, ?_, rfl, catalog, p.downs, hscan, hdowns, ?_⟩
  · have hparts : listing.takeWhile (fun a => a.version != version) ++ listing' = listing :=
      List.takeWhile_append_dropWhile
    rw [← hparts] at hrows hdistinct
    rw [h.reverts hm hh hctx hdown, hrows', ← hrows, hdowns.versions, Multiset.filter_coe,
      Applied.filter_append_versions hdistinct]
  · rw [foldl_add_downs hdown, hdowns.versions]
    rfl
  · rw [h.sent hm hh hctx, hsent']

/-- The move on to a version that the history does not have. -/
theorem wentOn_of_course (hm : m.Runs l serves) (ht : m.Timed l now serves) (hctx : serves ctx)
    {catalog : Catalog} (hscan : files.catalog m.directory = .ok catalog) {p : Plan} {s s' u : σ}
    (hrows : (listing : Multiset Applied) = l.rows s) (hnewest : Applied.Newest listing)
    (hclock : ∀ a ∈ listing, a.time < now s) (hmem : version ∉ listing.map (·.version))
    (hp : Plan.moveTo catalog listing version = .ok p) (hview : l.view s' = l.view s)
    (hnow : now s ≤ now s') (h : Course m files ctx s' p.steps u) :
    ∃ listing' : List Applied, (listing' : Multiset Applied) = l.rows u ∧
      Applied.Newest listing' ∧ (∃ a rest, listing' = a :: rest ∧ a.version = version) ∧
      ∃ ups, m.WentOn l files version listing s (p.steps.foldl Summary.add .empty) u listing'
        ups := by
  obtain ⟨⟨f, hget⟩, rfl⟩ := Plan.moveTo_of_not_mem hmem hp
  have houtstanding : Outstanding l files m.directory s (Plan.pending catalog listing) :=
    pending_outstanding hscan hrows
  obtain ⟨before, hlast⟩ := Plan.pending_upTo_last hget hmem houtstanding.ascending
  have hversion : f.version = version := Plan.version_of_get? hget
  generalize hups : (Plan.pending catalog listing).filter (fun f => !(version < f.version)) = ups
    at h hlast
  have hascending : Catalog.Ascending ups := hups ▸ houtstanding.ascending.filter _
  have hup : ∀ g ∈ ups, g.direction = .up := fun g hg =>
    ((houtstanding.mem g).mp (List.mem_filter.mp (hups ▸ hg)).1).2.1
  obtain ⟨hrows', hsent'⟩ := Prod.mk.inj hview
  obtain ⟨again, hagain, hlisting, hnewest'⟩ :=
    Course.listing hm ht hctx hup hascending h (hrows.trans hrows'.symm) hnewest
      fun a ha => lt_of_lt_of_le (hclock a ha) hnow
  refine ⟨again.reverse ++ listing, hlisting, hnewest', ?_, ups, ⟨_, houtstanding, hups.symm⟩, ?_,
    ⟨again, hagain, rfl⟩, ?_⟩
  · rw [hlast, List.map_append, List.map_singleton, hversion] at hagain
    exact Applied.first_of_last hagain listing
  · show ups.foldl Summary.add .empty = _
    rw [foldl_add_ups hup]
    rfl
  · rw [(h.applies hm hctx hup).2, hsent']

/-- A move to the version that comes first does nothing. -/
theorem moveTo_first_ends (hm : m.Runs l serves) (hh : m.history.Tracks l serves)
    (hctx : serves ctx) (hvalid : Version.validate version = .ok ()) {catalog : Catalog}
    (hscan : files.catalog m.directory = .ok catalog) {s : σ} {a : Applied} {rest : List Applied}
    (hrows : ((a :: rest : List Applied) : Multiset Applied) = l.rows s)
    (hnewest : Applied.Newest (a :: rest)) (hfirst : a.version = version) :
    (m.moveTo files ctx version).Ends s fun r t => l.view t = l.view s ∧
      (r = .ok .empty ∨ ∃ e, r = .error e ∧ (m.allApplied ctx).perform s = (.error e, t)) := by
  have hends := allApplied_shows hm hh hctx hrows hnewest
  rcases happlied : (m.allApplied ctx).perform s with ⟨e | applied, t⟩ <;>
    rw [Action.Ends, happlied] at hends
  · have hplan : (m.planMove files ctx version).perform s = (.error e, t) := by
      rw [planMove, hvalid, Action.perform_ofExcept_ok_bind, Action.perform_bind_error happlied]
    rw [Action.Ends, moveTo, Action.perform_bind_error hplan]
    exact ⟨hends.1, .inr ⟨e, rfl, rfl⟩⟩
  · obtain rfl := hends.2 applied rfl
    have hplan : (m.planMove files ctx version).perform s = (.ok ⟨.revert, [], []⟩, t) := by
      rw [planMove, hvalid, Action.perform_ofExcept_ok_bind, Action.perform_bind_ok happlied, hscan,
        Action.perform_ofExcept_ok_bind, Action.perform_ofExcept, Plan.moveTo_first hfirst]
    rw [Action.Ends, moveTo, Action.perform_bind_ok hplan]
    exact ⟨hends.1, .inl rfl⟩

/-- **The progress of a move**, over every directory, every history with each version once and
every version for which the move succeeds and is not declined, if the clock is past all rows of the
history and never goes back:

* The version is the first one of the listing then.
* If the history had it, the rows in front of it were reverted; else what was outstanding up to it
  was applied.
* To move to it again does nothing. -/
theorem move_progress (hm : m.Runs l serves) (hh : m.history.Tracks l serves)
    (ht : m.Timed l now serves) (hctx : serves ctx) {s u : σ} {summary : Summary}
    (hrows : (listing : Multiset Applied) = l.rows s) (hnewest : Applied.Newest listing)
    (hdistinct : (listing.map (·.version)).Nodup) (hclock : ∀ a ∈ listing, a.time < now s)
    (h : (m.moveTo files ctx version).perform s = (.ok summary, u))
    (hdeclined : summary.declined = false) :
    (∃ listing' : List Applied, (listing' : Multiset Applied) = l.rows u ∧
      Applied.Newest listing' ∧ (∃ a rest, listing' = a :: rest ∧ a.version = version) ∧
      (version ∈ listing.map (·.version) →
        m.WentBack l files version listing s summary u listing') ∧
      (version ∉ listing.map (·.version) →
        ∃ ups, m.WentOn l files version listing s summary u listing' ups)) ∧
    ∀ ctx', serves ctx' → (m.moveTo files ctx' version).Ends u fun r v => l.view v = l.view u ∧
      (r = .ok .empty ∨ ∃ e, r = .error e ∧ (m.allApplied ctx').perform u = (.error e, v)) := by
  obtain ⟨hvalid, catalog, p, s', hscan, hp, hview, hnow, hcourse, rfl⟩ :=
    moveTo_course hm hh ht hctx hrows hnewest h hdeclined
  have hmoved : ∃ listing' : List Applied, (listing' : Multiset Applied) = l.rows u ∧
      Applied.Newest listing' ∧ (∃ a rest, listing' = a :: rest ∧ a.version = version) ∧
      (version ∈ listing.map (·.version) →
        m.WentBack l files version listing s (p.steps.foldl Summary.add .empty) u listing') ∧
      (version ∉ listing.map (·.version) →
        ∃ ups, m.WentOn l files version listing s (p.steps.foldl Summary.add .empty) u listing'
          ups) := by
    by_cases hmem : version ∈ listing.map (·.version)
    · obtain ⟨hrows', hback⟩ :=
        wentBack_of_course hm hh hctx hscan hrows hdistinct hmem hp hview hcourse
      refine ⟨_, hrows', hnewest.sublist (List.dropWhile_sublist _), Applied.dropWhile_first hmem,
        fun _ => hback, fun hnot => absurd hmem hnot⟩
    · obtain ⟨listing', hrows', hnewest', hfirst, hon⟩ :=
        wentOn_of_course hm ht hctx hscan hrows hnewest hclock hmem hp hview hnow hcourse
      exact ⟨listing', hrows', hnewest', hfirst, fun hin => absurd hin hmem, fun _ => hon⟩
  refine ⟨hmoved, fun ctx' hctx' => ?_⟩
  obtain ⟨_, hrows', hnewest', ⟨a, rest, rfl, hfirst⟩, -⟩ := hmoved
  exact moveTo_first_ends hm hh hctx' hvalid hscan hrows' hnewest' hfirst

end Migrator

/-- A directory with three scripts. -/
def Files.withThree : Files :=
  ⟨[(["210329_121500_b.up.sql"], .file (Text.Utf8.encodeString "B")),
    (["210328_221600_a.up.sql"], .file (Text.Utf8.encodeString "A")),
    (["210330_090000_c.up.sql"], .file (Text.Utf8.encodeString "C"))], []⟩

/-- A move to the second of three versions on a bench whose history has the third: the first two are
applied, the second one comes first then, and to move again sends nothing. -/
theorem Migrator.move_progress_between :
    let m := Bench.migrator Bench.telling
    let l := Memory.ledger Bench.memoryPart Bench.heardPart
    let s := Bench.holding ["210330_090000_c"]
    (m.moveTo .withThree (.ofToken .never) "210329_121500_b").Ends s fun r u =>
      r.toOption = some ⟨[], ["210328_221600_a", "210329_121500_b"], false⟩ ∧
      (∃ rows : List Applied, (rows : Multiset Applied) = l.rows u ∧ Applied.Newest rows ∧
        ∃ a rest, rows = a :: rest ∧ a.version = "210329_121500_b") ∧
      u.heard = ["A", "B"] ∧
      ((m.moveTo .withThree (.ofToken .never) "210329_121500_b").perform u).2.heard =
        ["A", "B"] := by
  intro m l s
  have hctx : Bench.telling.Serves (.ofToken .never) := fun _ h => nomatch h
  have hanswer : ((m.moveTo .withThree (.ofToken .never) "210329_121500_b").perform s).1.toOption =
      some ⟨[], ["210328_221600_a", "210329_121500_b"], false⟩ := by decide +kernel
  have hheard : ((m.moveTo .withThree (.ofToken .never) "210329_121500_b").perform s).2.heard =
      ["A", "B"] := by decide +kernel
  have hrows : (s.memory.listing : Multiset Applied) = l.rows s :=
    Multiset.coe_eq_coe.mpr (List.mergeSort_perm _ _)
  have hclock : ∀ a ∈ s.memory.listing, a.time < Memory.clockOf Bench.memoryPart s := by
    decide +kernel
  rcases hrun : (m.moveTo .withThree (.ofToken .never) "210329_121500_b").perform s
    with ⟨e | summary, u⟩ <;> rw [hrun] at hanswer hheard
  · cases hanswer
  · cases hanswer
    obtain ⟨⟨rows, hrows', hnewest, hfirst, -⟩, hagain⟩ := move_progress Bench.migrator_runs
      Bench.migrator_tracks Bench.migrator_timed hctx hrows (Applied.newest_newestFirst _)
      (by decide +kernel) hclock hrun rfl
    rw [Action.Ends, hrun]
    refine ⟨rfl, ⟨rows, hrows', hnewest, hfirst⟩, hheard, ?_⟩
    exact (Prod.mk.inj (hagain (.ofToken .never) hctx).1).2.trans hheard

end SchemaMigration
