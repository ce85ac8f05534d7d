import SchemaMigration.Proofs.HistoryTable
import SchemaMigration.Proofs.MoveProgress
import SchemaMigration.Proofs.RevertProgress
/-! # Undoing what was applied

`up` applies by ascending versions, and `down` reverts by the order of the listing, which is first
of all an order by time.  If the clock was past all rows when `up` began and has not gone back
since, the two orders are opposite on the rows that `up` made, whether their times are equal or not,
and these rows stand in front of all others, however great the versions of the others are
(`Migrator.up_shows`).  So `down` with as many migrations as were applied takes exactly these rows
away again (`Migrator.down_undoes_up`). -/
namespace SchemaMigration

variable {σ : Type}

/-- Rows of ascending versions in front of others without these versions: each version is there
once. -/
theorem Applied.nodup_reverse_append {again listing : List Applied}
    (hversions : (again.map (·.version)).Pairwise (· < ·))
    (hnew : ∀ version ∈ again.map (·.version), version ∉ listing.map (·.version))
    (hlisting : (listing.map (·.version)).Nodup) :
    ((again.reverse ++ listing).map (·.version)).Nodup := by
  have hagain : (again.map (·.version)).Nodup := hversions.imp ne_of_lt
  rw [List.map_append, List.map_reverse, List.nodup_append]
  refine ⟨List.nodup_reverse.mpr hagain, hlisting, ?_⟩
  intro version hversion other hother heq
  have hmem : version ∈ again.map (·.version) := List.mem_reverse.mp hversion
  exact hnew version hmem (heq ▸ hother)

/-- Without its first rows, a listing has the others left. -/
theorem Remains.of_first {first others : List Applied} {rows : Multiset Applied}
    (h : Remains (first ++ others) first.length [] first.length rows) : rows = others := by
  obtain ⟨again, hversions, rfl⟩ := h
  have hnone : again = [] := by
    rw [List.take_nil] at hversions
    exact List.map_eq_nil_iff.mp hversions
  rw [hnone, Nat.min_self, List.drop_left]
  exact Multiset.zero_add _

namespace Migrator

variable {m : Migrator σ} {l : Ledger σ} {now : σ → Int} {made : σ → Bool}
variable {serves : Context σ → Prop} {files : Files} {ctx ctx' : Context σ} {catalog : Catalog}
variable {limit : Limit} {s u : σ} {summary : Summary} {listing : List Applied}

/-! ### What `up` leaves -/

section Up

variable (hm : m.Runs l serves) (hh : m.history.Tracks l serves) (ht : m.Timed l now serves)
variable (hk : m.Houses made serves) (hctx : serves ctx)
variable (hscan : files.catalog m.directory = .ok catalog)
variable (hrows : (listing : Multiset Applied) = l.rows s) (hnewest : Applied.Newest listing)
include hm hh ht hk hctx hscan hrows hnewest

/-- An `up` that applied something has made the table and run its plan to the end. -/
theorem up_course (h : (m.up files ctx limit).perform s = (.ok summary, u))
    (hsome : summary.applied ≠ []) :
    ∃ ups s', ups = limit.truncate (Plan.pending catalog listing) ∧ l.view s' = l.view s ∧
      now s ≤ now s' ∧ made s' = true ∧ Course m files ctx s' ups u ∧
      summary = ups.foldl Summary.add .empty := by
  rw [up] at h
  rcases hplan : (m.planUp files ctx limit).perform s with ⟨e | p, t⟩
  · rw [Action.perform_bind_error hplan] at h
    cases h
  · rw [Action.perform_bind_ok hplan] at h
    obtain ⟨applied, happlied, rfl⟩ := planUp_ok hscan hplan
    have hread := allApplied_shows hm hh hctx hrows hnewest
    have htable := allApplied_table hk hctx s
    rw [Action.Ends, happlied] at hread htable
    obtain ⟨hview, hlisting⟩ := hread
    obtain rfl := hlisting applied rfl
    have hnow : now s ≤ now t := (allApplied_advances ht hctx).of_perform happlied
    rcases course_of_run_ok h with ⟨hsummary, hcourse⟩ | ⟨rfl, -⟩
    · refine ⟨_, m.agreed (Plan.forward catalog applied limit) t, rfl, ?_, ?_, ?_, hcourse,
        hsummary⟩
      · exact (hm.view_agreed _ t).trans hview
      · exact le_trans hnow (agreed_advances ht _ t)
      · exact (hk.made_agreed _ t).trans (htable applied rfl)
    · exact absurd rfl hsome

/-- **The listing after `up`**, when the clock was past all rows before: the rows that were applied,
the last one first, and then the listing from before. -/
theorem up_shows (hctx' : serves ctx') (hdistinct : (listing.map (·.version)).Nodup)
    (hclock : ∀ a ∈ listing, a.time < now s)
    (h : (m.up files ctx limit).perform s = (.ok summary, u)) (hsome : summary.applied ≠ []) :
    ∃ again : List Applied, again.map (·.version) = summary.applied ∧
      m.history.Shows l ctx' u (again.reverse ++ listing) ∧
      ∀ a ∈ again, ∃ f ∈ catalog.ups, f.version = a.version := by
  obtain ⟨ups, s', hups, hview, hnow, hmade, hcourse, hsummary⟩ :=
    up_course hm hh ht hk hctx hscan hrows hnewest h hsome
  have hpending : Outstanding l files m.directory s (Plan.pending catalog listing) :=
    pending_outstanding hscan hrows
  have hmem : ∀ f ∈ ups, f ∈ Plan.pending catalog listing := fun f hf =>
    Limit.mem_of_mem_truncate (hups ▸ hf)
  have hascending : Catalog.Ascending ups := by
    rw [hups, Limit.truncate_eq_take]
    exact List.Pairwise.sublist (List.take_sublist _ _) hpending.ascending
  have hup : ∀ f ∈ ups, f.direction = .up := fun f hf => ((hpending.mem f).mp (hmem f hf)).2.1
  have hrows' : (listing : Multiset Applied) = l.rows s' :=
    hrows.trans (Prod.mk.inj hview).1.symm
  have hclock' : ∀ a ∈ listing, a.time < now s' := fun a ha => lt_of_lt_of_le (hclock a ha) hnow
  obtain ⟨again, hagain, hrowsu, hnewestu⟩ :=
    hcourse.listing hm ht hctx hup hascending hrows' hnewest hclock'
  have happlied : summary.applied = ups.map (·.version) := by
    rw [hsummary, foldl_add_ups hup]
    rfl
  refine ⟨again, hagain.trans happlied.symm, hk.shows hctx' hrowsu hnewestu ?_ ?_, ?_⟩
  · refine Applied.nodup_reverse_append ?_ ?_ hdistinct
    · rw [hagain]
      exact List.pairwise_map.mpr hascending
    · -- what was applied had not been in the history
      intro version hversion hold
      rw [hagain] at hversion
      obtain ⟨f, hf, rfl⟩ := List.mem_map.mp hversion
      have hnot : f.version ∉ l.versions s := ((hpending.mem f).mp (hmem f hf)).2.2
      rw [Ledger.versions, ← hrows] at hnot
      exact hnot hold
  · intro hnone
    rw [hcourse.table hk hctx, hmade] at hnone
    cases hnone
  · intro a ha
    have hversion : a.version ∈ ups.map (·.version) := hagain ▸ List.mem_map_of_mem ha
    obtain ⟨f, hf, heq⟩ := List.mem_map.mp hversion
    exact ⟨f, (List.mem_filter.mp (hmem f hf)).1, heq⟩

end Up

/-! ### What `down` makes of it -/

/-- `down` plans for the first rows of the listing and reverts them. -/
theorem down_reverts (hm : m.Runs l serves) (hh : m.history.Tracks l serves) (hctx : serves ctx)
    (hscan : files.catalog m.directory = .ok catalog) (hshows : m.history.Shows l ctx s listing)
    (hlimit : limit ≠ .count 0) (hdown : catalog.HasAll .down (limit.truncate listing)) :
    m.Reverts l files ctx catalog limit listing (limit.truncate listing) [] s
      (m.planDown files ctx limit) (m.down files ctx limit) := by
  obtain ⟨p, hp, hdowns, hups⟩ := Plan.back_ok hdown
  have hidle : limit.truncate listing = [] →
      (⟨.revert, [], []⟩ : Plan).downs = [] ∧ (⟨.revert, [], []⟩ : Plan).ups = [] ∧
        ([] : List Applied) = [] := fun _ => ⟨rfl, rfl, rfl⟩
  exact reverts_of_plan ⟨.revert, [], []⟩ (fun applied catalog => Plan.back catalog applied) hm hh
    hctx hscan hshows hlimit hidle ⟨p, hp, hdowns, hups ▸ .nil catalog .up⟩

/-- How a `down` goes that undoes what was applied on top of a history with `rows`.  Its plan has
the down scripts of what was applied, in the opposite order; making it changes nothing and fails
only where the history cannot be read.  If the operator agrees and the scripts succeed, the history
has the old rows again. -/
def Undoes (m : Migrator σ) (l : Ledger σ) (files : Files) (ctx : Context σ) (catalog : Catalog)
    (applied : List String) (rows : Multiset Applied) (u : σ) : Prop :=
  let back := Limit.count applied.length
  (m.planDown files ctx back).Ends u fun r t => l.view t = l.view u ∧ match r with
    | .error e => (m.applied ctx back).perform u = (.error e, t)
    | .ok p => p.downs.map (·.version) = applied.reverse ∧ (∀ f ∈ p.downs, f ∈ catalog.downs) ∧
        p.ups = [] ∧ (m.Agrees p t → ∀ v, Course m files ctx (m.agreed p t) p.downs v →
          (m.down files ctx back).perform u = (.ok ⟨applied.reverse, [], false⟩, v) ∧
          l.rows v = rows ∧ l.sent v = l.sent u ++ p.downs.flatMap (·.statementsOf files))

/-- `down` undoes what stands in front of the listing. -/
theorem undoes_of_shows (hm : m.Runs l serves) (hh : m.history.Tracks l serves) (hctx : serves ctx)
    (hscan : files.catalog m.directory = .ok catalog) {again : List Applied}
    (hshows : m.history.Shows l ctx u (again.reverse ++ listing)) (hsome : again ≠ [])
    (hdown : catalog.HasAll .down again) :
    m.Undoes l files ctx catalog (again.map (·.version)) listing u := by
  unfold Undoes
  intro back
  have hlength : (again.map (·.version)).length = again.reverse.length := by
    rw [List.length_map, List.length_reverse]
  have hfirst : back.truncate (again.reverse ++ listing) = again.reverse := by
    show (again.reverse ++ listing).take (again.map (·.version)).length = again.reverse
    rw [hlength, List.take_left]
  have hback : back ≠ .count 0 := fun hzero =>
    hsome (List.map_eq_nil_iff.mp (List.length_eq_zero_iff.mp (Limit.count.inj hzero)))
  have hreverts : m.Reverts l files ctx catalog back (again.reverse ++ listing) again.reverse [] u
      (m.planDown files ctx back) (m.down files ctx back) := by
    have hall : catalog.HasAll .down (back.truncate (again.reverse ++ listing)) := by
      rw [hfirst]
      exact fun a ha => hdown a (List.mem_reverse.mp ha)
    have h := down_reverts hm hh hctx hscan hshows hback hall
    rwa [hfirst] at h
  unfold Reverts at hreverts
  unfold Action.Ends
  rcases hplan : (m.planDown files ctx back).perform u with ⟨e | p, t⟩ <;> rw [hplan] at hreverts
  · exact ⟨hreverts.2.2, hreverts.1⟩
  · obtain ⟨hview, hdowns, hups, hcarried⟩ := hreverts
    have hreverted : p.downs.map (·.version) = (again.map (·.version)).reverse := by
      rw [hdowns.versions, List.map_reverse]
    have hnone : p.ups = [] := List.map_eq_nil_iff.mp hups.versions
    have hsteps : p.steps = p.downs := by rw [Plan.steps, hnone, List.append_nil]
    refine ⟨(hm.view_agreed p t).symm.trans hview, hreverted, hdowns.mem, hnone, ?_⟩
    intro hagrees v hcourse
    rw [← hsteps] at hcourse
    obtain ⟨hanswer, hstate, hremains, hsent⟩ := (hcarried hagrees).complete v hcourse
    rw [hstate, hsteps, hdowns.length_eq] at hremains
    rw [hreverted, hnone] at hanswer
    rw [hstate, hsteps, (Prod.mk.inj hview).2] at hsent
    exact ⟨Prod.ext hanswer hstate, hremains.of_first, hsent⟩

/-- A `down` that ends well and is not declined has undone what it was to undo. -/
theorem Undoes.of_down {applied : List String} {rows : Multiset Applied}
    (h : m.Undoes l files ctx catalog applied rows u) {v : σ}
    (hdown : (m.down files ctx (.count applied.length)).perform u = (.ok summary, v))
    (hdeclined : summary.declined = false) :
    summary = ⟨applied.reverse, [], false⟩ ∧ l.rows v = rows := by
  unfold Undoes at h
  rcases hplan : (m.planDown files ctx (.count applied.length)).perform u with ⟨e | p, t⟩
  · rw [down, Action.perform_bind_error hplan] at hdown
    cases hdown
  · have hrun : (m.run files ctx p).perform t = (.ok summary, v) := by
      rwa [down, Action.perform_bind_ok hplan] at hdown
    rw [Action.Ends, hplan] at h
    obtain ⟨-, -, -, hnone, hcomplete⟩ := h
    have hcourse : Course m files ctx (m.agreed p t) p.downs v := by
      rcases course_of_run_ok hrun with ⟨-, hcourse⟩ | ⟨rfl, -⟩
      · rwa [Plan.steps, hnone, List.append_nil] at hcourse
      · cases hdeclined
    obtain ⟨hanswer, hrows, -⟩ := hcomplete (agrees_of_run hrun hdeclined) v hcourse
    rw [hdown] at hanswer
    exact ⟨Except.ok.inj (Prod.mk.inj hanswer).1, hrows⟩

/-- **`down` undoes `up`**, over every directory in which each script that applies has one that
reverts, every history with each version once and every limit, if the clock is past all rows of the
history and never goes back.  After an `up` that has applied something, `down` with as many
migrations undoes it: it reverts what was applied, in the opposite order, and leaves the rows from
before the `up`, with their times. -/
theorem down_undoes_up (hm : m.Runs l serves) (hh : m.history.Tracks l serves)
    (ht : m.Timed l now serves) (hk : m.Houses made serves) (hctx : serves ctx)
    (hctx' : serves ctx') (hscan : files.catalog m.directory = .ok catalog)
    (hpaired : ∀ f ∈ catalog.ups, (catalog.get? f.version .down).isSome)
    (hdistinct : (l.versions s).Nodup) (hclock : ∀ a ∈ l.rows s, a.time < now s)
    (h : (m.up files ctx limit).perform s = (.ok summary, u)) (hsome : summary.applied ≠ []) :
    m.Undoes l files ctx' catalog summary.applied (l.rows s) u ∧
      ∀ summary' v, (m.down files ctx' (.count summary.applied.length)).perform u =
          (.ok summary', v) → summary'.declined = false →
        summary' = ⟨summary.applied.reverse, [], false⟩ ∧ l.rows v = l.rows s := by
  obtain ⟨listing, hrows, hnewest⟩ := Applied.exists_listing (l.rows s)
  rw [Ledger.versions, ← hrows] at hdistinct
  rw [← hrows] at hclock ⊢
  obtain ⟨again, hagain, hshows, hups⟩ := up_shows hm hh ht hk hctx hscan hrows hnewest hctx'
    hdistinct hclock h hsome
  have hundoes : m.Undoes l files ctx' catalog summary.applied listing u := by
    rw [← hagain] at hsome ⊢
    refine undoes_of_shows hm hh hctx' hscan hshows (fun hnil => hsome (hnil ▸ rfl)) ?_
    intro a ha
    obtain ⟨f, hf, hversion⟩ := hups a ha
    exact hversion ▸ hpaired f hf
  exact ⟨hundoes, fun summary' v hdown hdeclined => hundoes.of_down hdown hdeclined⟩

end Migrator

/-- Two migrations are applied to a history that has a greater version, and reverted again. -/
theorem Migrator.down_undoes_up_below :
    let m := Bench.migrator Bench.telling
    let l := Memory.ledger Bench.memoryPart Bench.heardPart
    let s := Bench.holding ["210330_090000_c"]
    (m.up .withPairs (.ofToken .never) .all).Ends s fun r u =>
      r.toOption = some ⟨[], ["210328_221600_a", "210329_121500_b"], false⟩ ∧
      (m.down .withPairs (.ofToken .never) (.count 2)).Ends u fun r v =>
        r.toOption = some ⟨["210329_121500_b", "210328_221600_a"], [], false⟩ ∧
        l.rows v = l.rows s := by
  intro m l s
  obtain ⟨catalog, hscan, hpaired⟩ : ∃ catalog, Files.withPairs.catalog "/" = .ok catalog ∧
      ∀ f ∈ catalog.ups, (catalog.get? f.version .down).isSome :=
    Failure.ok_of_any (by decide +kernel)
  have hctx : Bench.telling.Serves (.ofToken .never) := fun _ h => nomatch h
  have hclock : ∀ a ∈ l.rows s, a.time < Memory.clockOf Bench.memoryPart s := by decide +kernel
  have hanswer : ((m.up .withPairs (.ofToken .never) .all).perform s).1.toOption =
      some ⟨[], ["210328_221600_a", "210329_121500_b"], false⟩ := by decide +kernel
  have hreverted : ((m.down .withPairs (.ofToken .never) (.count 2)).perform
      ((m.up .withPairs (.ofToken .never) .all).perform s).2).1.toOption =
        some ⟨["210329_121500_b", "210328_221600_a"], [], false⟩ := by
    simp only [m, Bench.migrator, Memory.history, Memory.listing,
      Applied.newestFirst_eq_insertionSort]
    decide +kernel
  rcases hup : (m.up .withPairs (.ofToken .never) .all).perform s with ⟨e | summary, u⟩ <;>
    rw [hup] at hanswer hreverted
  · cases hanswer
  cases hanswer
  rcases hdown : (m.down .withPairs (.ofToken .never) (.count 2)).perform u
    with ⟨e | summary, v⟩ <;> rw [hdown] at hreverted
  · cases hreverted
  cases hreverted
  have hundone := (down_undoes_up Bench.migrator_runs Bench.migrator_tracks Bench.migrator_timed
    Bench.migrator_houses hctx hctx hscan hpaired (by decide +kernel) hclock hup
    (List.cons_ne_nil _ _)).2
  obtain ⟨-, hrows⟩ := hundone _ v hdown rfl
  rw [Action.Ends, hup]
  refine ⟨rfl, ?_⟩
  rw [Action.Ends, hdown]
  exact ⟨rfl, hrows⟩

end SchemaMigration
