import SchemaMigration.Proofs.Undoing
/-! # The order after a redo

`redo` takes the first rows of the listing away and makes them again, the last one first, with new
times.  If the clock is not behind any row, the rows that were made again stand in front of those
that stood behind them, so these keep their places (`Applied.newest_again_append`).  Among
themselves, the rows that were made again have their old order by time as long as the times differ;
rows that were made within the same second are put in the order of their versions, which need not be
the old one.  So the order is the old one exactly if the versions of such rows descend
(`Applied.order_kept_iff`, `Migrator.redo_order`). -/
namespace SchemaMigration

variable {σ : Type}

namespace Applied

variable {first again rest : List Applied}

/-! ### Rows that are made again -/

/-- Rows with the versions of the first ones that were made again, when the time was not before that
of any row, stand in front of the others. -/
theorem newest_again_append {now : Int} (hnewest : Newest (first ++ rest))
    (htimes : ∀ a ∈ first ++ rest, a.time ≤ now)
    (hversions : again.map (·.version) = first.map (·.version))
    (hagain : again = first ∨ ∀ a ∈ again, now ≤ a.time) :
    Newest (newestFirst again ++ rest) := by
  obtain ⟨-, hrest, hcross⟩ := List.pairwise_append.mp hnewest
  refine List.pairwise_append.mpr ⟨newest_newestFirst again, hrest, ?_⟩
  intro a ha b hb
  have hmem : a ∈ again := List.mem_mergeSort.mp ha
  rcases hagain with rfl | hlater
  · exact hcross a hmem b hb
  · have htime : b.time ≤ now := htimes b (List.mem_append_right _ hb)
    rcases lt_or_eq_of_le (le_trans htime (hlater a hmem)) with hlt | heq
    · exact not_newer_iff.mpr (.inl hlt)
    · -- `b` has the time of the redo, so it stood behind the old row of the version of `a` by its
      -- version
      have hversion : a.version ∈ first.map (·.version) := hversions ▸ List.mem_map_of_mem hmem
      obtain ⟨old, hold, hsame⟩ := List.mem_map.mp hversion
      have hnow : now = b.time := le_antisymm (heq ▸ hlater a hmem) htime
      have hbound : old.time ≤ b.time := hnow ▸ htimes old (List.mem_append_left _ hold)
      rcases not_newer_iff.mp (hcross old hold b hb) with hlt | ⟨-, hle⟩
      · exact absurd hlt (not_lt.mpr hbound)
      · exact not_newer_iff.mpr (.inr ⟨heq.symm, hsame ▸ hle⟩)

theorem Newest.times {rows : List Applied} (h : Newest rows) :
    rows.Pairwise fun a b => b.time ≤ a.time := by
  refine h.imp fun {a b} hnot => ?_
  rcases not_newer_iff.mp hnot with hlt | ⟨heq, -⟩
  · exact le_of_lt hlt
  · exact le_of_eq heq.symm

/-- Rows whose versions differ are determined by the list of their versions. -/
theorem eq_of_versions_eq {xs ys : List Applied} (hperm : xs.Perm ys)
    (hdistinct : (ys.map (·.version)).Nodup)
    (hversions : xs.map (·.version) = ys.map (·.version)) : xs = ys := by
  refine List.ext_getElem hperm.length_eq fun i hi hj => ?_
  have hversion : xs[i].version = ys[i].version := by
    have hmap := List.getElem_of_eq hversions (i := i) (by rwa [List.length_map])
    rwa [List.getElem_map, List.getElem_map] at hmap
  exact List.inj_on_of_nodup_map hdistinct (hperm.mem_iff.mp (List.getElem_mem hi))
    (List.getElem_mem hj) hversion

/-- Rows that were made one after another, listed in the opposite order, are in the order of a
listing exactly if the versions descend among those of the same time. -/
theorem newest_iff_versions_descend (htimes : again.Pairwise fun a b => b.time ≤ a.time)
    (hdistinct : (again.map (·.version)).Nodup) :
    Newest again ↔ again.Pairwise fun a b => a.time = b.time → b.version < a.version := by
  have hne : again.Pairwise fun a b => a.version ≠ b.version := List.pairwise_map.mp hdistinct
  constructor
  · intro hnewest
    refine (hnewest.and hne).imp fun {a b} ⟨hnot, hversion⟩ htime => ?_
    rcases not_newer_iff.mp hnot with hlt | ⟨-, hle⟩
    · exact absurd htime (ne_of_gt hlt)
    · exact lt_of_le_of_ne hle (Ne.symm hversion)
  · intro hdescend
    refine (hdescend.and htimes).imp fun {a b} ⟨hversion, htime⟩ => ?_
    rcases lt_or_eq_of_le htime with hlt | heq
    · exact not_newer_iff.mpr (.inl hlt)
    · exact not_newer_iff.mpr (.inr ⟨heq.symm, le_of_lt (hversion heq.symm)⟩)

/-- **When the order is kept.**  The rows `again`, in the old order, have descending times. -/
theorem order_kept_iff (rest : List Applied)
    (hversions : again.map (·.version) = first.map (·.version))
    (hdistinct : (first.map (·.version)).Nodup)
    (htimes : again.Pairwise fun a b => b.time ≤ a.time) :
    (newestFirst again ++ rest).map (·.version) = (first ++ rest).map (·.version) ↔
      again.Pairwise fun a b => a.time = b.time → b.version < a.version := by
  have hperm : (newestFirst again).Perm again := List.mergeSort_perm _ _
  rw [← hversions] at hdistinct
  rw [List.map_append, List.map_append, List.append_cancel_right_eq, ← hversions,
    ← newest_iff_versions_descend htimes hdistinct]
  constructor
  · intro hsame
    rw [← eq_of_versions_eq hperm hdistinct hsame]
    exact newest_newestFirst again
  · intro hnewest
    rw [(newest_newestFirst again).eq_of_coe_eq hnewest (Multiset.coe_eq_coe.mpr hperm)]

end Applied

namespace Migrator

variable {m : Migrator σ} {l : Ledger σ} {now : σ → Int} {made : σ → Bool}
variable {serves : Context σ → Prop} {files : Files} {ctx ctx' : Context σ} {catalog : Catalog}
variable {limit : Limit} {s u : σ} {summary : Summary} {listing : List Applied}

theorem applied_advances (ht : m.Timed l now serves) (hctx : serves ctx) (limit : Limit) :
    (m.applied ctx limit).Advances now := by
  refine .bind (ht.history.isCreated ctx hctx) fun created => ?_
  cases created with
  | true => exact ht.history.list ctx hctx _
  | false => exact .pure _

/-- Whichever rows were read, the plan to redo them has their scripts. -/
theorem planRedo_ok (hscan : files.catalog m.directory = .ok catalog) {p : Plan} {t : σ}
    (h : (m.planRedo files ctx limit).perform s = (.ok p, t)) :
    ∃ rows, (m.applied ctx limit).perform s = (.ok rows, t) ∧
      catalog.Scripts .down rows p.downs ∧ catalog.Scripts .up rows.reverse p.ups := by
  have hplan : (m.planFirst files ctx limit ⟨.redo, [], []⟩
      fun applied catalog => Plan.again catalog applied).perform s = (.ok p, t) := h
  obtain ⟨rows, hread, hmade⟩ := planFirst_ok hplan
  rcases hmade with ⟨rfl, rfl⟩ | ⟨catalog', hscan', hagain⟩
  · exact ⟨[], hread, .nil catalog .down, .nil catalog .up⟩
  · obtain rfl : catalog' = catalog := Except.ok.inj (hscan'.symm.trans hscan)
    exact ⟨rows, hread, Plan.again_of_ok hagain⟩

section Redo

variable (hm : m.Runs l serves) (hh : m.history.Tracks l serves) (ht : m.Timed l now serves)
variable (hk : m.Houses made serves) (hctx : serves ctx)
variable (hscan : files.catalog m.directory = .ok catalog)
include hm hh ht hctx hscan

/-- The rows after scripts that revert the first rows of a listing and apply them again: the new
rows have the versions of the old ones, and the others are untouched. -/
theorem Course.redone {first rest : List Applied} {downs ups : List MigrationFile} {s' : σ}
    (hrows : ((first ++ rest : List Applied) : Multiset Applied) = l.rows s')
    (hdistinct : ((first ++ rest).map (·.version)).Nodup)
    (hdowns : catalog.Scripts .down first downs) (hups : catalog.Scripts .up first.reverse ups)
    (h : Course m files ctx s' (downs ++ ups) u) :
    ∃ again : List Applied, again.map (·.version) = first.map (·.version) ∧
      again.Pairwise (fun a b => b.time ≤ a.time) ∧ (∀ a ∈ again, now s' ≤ a.time) ∧
      ((again ++ rest : List Applied) : Multiset Applied) = l.rows u := by
  have hdown := hdowns.direction_eq hscan
  have hup := hups.direction_eq hscan
  obtain ⟨t, hback, hagain⟩ := h.split
  have hleft : l.rows t = rest := by
    rw [hback.reverts hm hh hctx hdown, ← hrows, hdowns.versions, Multiset.filter_coe,
      Applied.filter_append_versions hdistinct]
  obtain ⟨again, hversions, hadded, htimes, hlater⟩ := hagain.dated hm ht hctx hup
  have hnow : now s' ≤ now t := hback.advances ht hctx
  refine ⟨again.reverse, ?_, List.pairwise_reverse.mpr htimes, ?_, ?_⟩
  · rw [List.map_reverse, hversions, hups.versions, List.map_reverse, List.reverse_reverse]
  · intro a ha
    exact le_trans hnow (hlater a (List.mem_reverse.mp ha))
  · rw [hadded, hleft, ← Multiset.coe_add, Multiset.coe_reverse]

include hk

/-- A `redo` that ends well has run the scripts of the first rows, or it was declined; the state `s'`
is the one after the question. -/
theorem redo_course (hshows : m.history.Shows l ctx s listing)
    (h : (m.redo files ctx limit).perform s = (.ok summary, u)) :
    let first := Applied.atMost limit.toNumber listing
    ∃ s', l.view s' = l.view s ∧ now s ≤ now s' ∧ made s' = made s ∧
      ((m.history.isCreated ctx).perform s).1 = .ok (made s) ∧
      (u = s' ∨ ∃ downs ups, catalog.Scripts .down first downs ∧
        catalog.Scripts .up first.reverse ups ∧ Course m files ctx s' (downs ++ ups) u) := by
  intro first
  rw [redo] at h
  rcases hplan : (m.planRedo files ctx limit).perform s with ⟨e | p, t⟩
  · rw [Action.perform_bind_error hplan] at h
    cases h
  rw [Action.perform_bind_ok hplan] at h
  obtain ⟨rows, hread, hdowns, hups⟩ := planRedo_ok hscan hplan
  have hlists := applied_lists hm hh hctx hshows.rows hshows.newest hshows.table limit
  have htable := applied_table hk hctx limit s
  rw [Action.Ends, hread] at hlists htable
  obtain ⟨hview, hrows⟩ := hlists
  obtain rfl : rows = first := hrows rows rfl
  obtain ⟨hmade, hcreated⟩ := htable
  have hnow : now s ≤ now t := (applied_advances ht hctx limit).of_perform hread
  rcases course_of_run_ok h with ⟨-, hcourse⟩ | ⟨-, hdeclined⟩
  · refine ⟨m.agreed p t, (hm.view_agreed p t).trans hview, ?_, ?_, hcreated first rfl, ?_⟩
    · exact le_trans hnow (agreed_advances ht p t)
    · exact (hk.made_agreed p t).trans hmade
    · exact .inr ⟨p.downs, p.ups, hdowns, hups, hcourse⟩
  · refine ⟨u, ((hm.confirm p).of_perform hdeclined).trans hview, ?_, ?_, hcreated first rfl, ?_⟩
    · exact le_trans hnow ((ht.confirm p).of_perform hdeclined)
    · exact ((hk.confirm p).of_perform hdeclined).trans hmade
    · exact .inl rfl

/-- What a `redo` that ends well has made of the rows. -/
theorem redo_rows (hshows : m.history.Shows l ctx s listing)
    (h : (m.redo files ctx limit).perform s = (.ok summary, u)) :
    let first := Applied.atMost limit.toNumber listing
    ∃ again : List Applied, again.map (·.version) = first.map (·.version) ∧
      again.Pairwise (fun a b => b.time ≤ a.time) ∧
      (again = first ∨ ∀ a ∈ again, now s ≤ a.time) ∧
      ((again ++ listing.drop first.length : List Applied) : Multiset Applied) = l.rows u ∧
      (made u = false → listing = []) := by
  intro first
  have hparts : first ++ listing.drop first.length = listing :=
    Applied.atMost_append_drop limit.toNumber listing
  obtain ⟨s', hview, hnow, hmade, hcreated, hrun⟩ := redo_course hm hh ht hk hctx hscan hshows h
  have hrows : (listing : Multiset Applied) = l.rows s' :=
    hshows.rows.trans (Prod.mk.inj hview).1.symm
  have hnone : made s' = false → listing = [] := by
    intro hfalse
    refine hshows.table ?_
    rw [hcreated, ← hmade, hfalse]
  rcases hrun with rfl | ⟨downs, ups, hdowns, hups, hcourse⟩
  · -- where the operator declined, the first rows are what they were
    refine ⟨first, rfl, ?_, .inl rfl, hparts.symm ▸ hrows, hnone⟩
    have hnewest : Applied.Newest first := by
      rw [show first = listing.take first.length from Applied.atMost_eq_take _ _]
      exact hshows.newest.sublist (List.take_sublist _ _)
    exact hnewest.times
  · have hdistinct := hshows.distinct
    rw [← hparts] at hdistinct hrows
    obtain ⟨again, hversions, htimes, hlater, hrows'⟩ :=
      hcourse.redone hm hh ht hctx hscan hrows hdistinct hdowns hups
    refine ⟨again, hversions, htimes, .inr fun a ha => le_trans hnow (hlater a ha), hrows', ?_⟩
    rw [hcourse.table hk hctx]
    exact hnone

/-- The listing after a `redo` has the rows that were made again, newest first, and then the others.
Its versions are those from before. -/
theorem redo_shows (hctx' : serves ctx') (hshows : m.history.Shows l ctx s listing)
    (hclock : ∀ a ∈ listing, a.time ≤ now s)
    (h : (m.redo files ctx limit).perform s = (.ok summary, u)) :
    let first := Applied.atMost limit.toNumber listing
    ∃ again : List Applied, again.map (·.version) = first.map (·.version) ∧
      again.Pairwise (fun a b => b.time ≤ a.time) ∧
      let listing' := Applied.newestFirst again ++ listing.drop first.length
      m.history.Shows l ctx' u listing' ∧
      (listing'.map (·.version)).Perm (listing.map (·.version)) := by
  intro first
  have hparts : first ++ listing.drop first.length = listing :=
    Applied.atMost_append_drop limit.toNumber listing
  obtain ⟨again, hversions, htimes, hagain, hrows, htable⟩ :=
    redo_rows hm hh ht hk hctx hscan hshows h
  refine ⟨again, hversions, htimes, ?_⟩
  intro listing'
  have hperm : listing'.Perm (again ++ listing.drop first.length) :=
    (List.mergeSort_perm _ _).append_right _
  have hmap : (again ++ listing.drop first.length).map (·.version) = listing.map (·.version) := by
    calc (again ++ listing.drop first.length).map (·.version)
        = again.map (·.version) ++ (listing.drop first.length).map (·.version) := List.map_append
      _ = (first ++ listing.drop first.length).map (·.version) := by
          rw [hversions, ← List.map_append]
      _ = listing.map (·.version) := by rw [hparts]
  have hsame : (listing'.map (·.version)).Perm (listing.map (·.version)) := hmap ▸ hperm.map _
  have hnewest : Applied.Newest listing' := by
    refine Applied.newest_again_append ?_ ?_ hversions hagain
    · rw [hparts]
      exact hshows.newest
    · rw [hparts]
      exact hclock
  refine ⟨hk.shows hctx' ?_ hnewest (hsame.nodup_iff.mpr hshows.distinct) ?_, hsame⟩
  · rw [← hrows]
    exact Multiset.coe_eq_coe.mpr hperm
  · intro hnone
    rw [htable hnone] at hsame
    exact List.map_eq_nil_iff.mp hsame.eq_nil

/-- **The order after a `redo`**, over every history with each version once, every directory with
all down scripts and every limit, if the clock is not behind any row and never goes back.  After a
`redo` that ends well, the listing has the same versions: the rows that were redone, newest first,
and then the others, which are untouched.  Let `again` be the rows that were redone, in their old
order:

* The versions have the order from before exactly if the versions of any two redone rows of the same
  time descend.
* A `down` of one migration reverts the first row of this listing, which has the version of the
  first row from before if the order is kept. -/
theorem redo_order (hctx' : serves ctx') (hshows : m.history.Shows l ctx s listing)
    (hclock : ∀ a ∈ listing, a.time ≤ now s) (hdown : catalog.HasAll .down listing)
    (h : (m.redo files ctx limit).perform s = (.ok summary, u)) :
    let first := Applied.atMost limit.toNumber listing
    ∃ again : List Applied, again.map (·.version) = first.map (·.version) ∧
      let listing' := Applied.newestFirst again ++ listing.drop first.length
      m.history.Shows l ctx' u listing' ∧
      (listing'.map (·.version) = listing.map (·.version) ↔
        again.Pairwise fun a b => a.time = b.time → b.version < a.version) ∧
      m.Reverts l files ctx' catalog (.count 1) listing' (listing'.take 1) [] u
        (m.planDown files ctx' (.count 1)) (m.down files ctx' (.count 1)) ∧
      ((again.Pairwise fun a b => a.time = b.time → b.version < a.version) →
        (listing'.take 1).map (·.version) = (listing.take 1).map (·.version)) := by
  intro first
  have hparts : first ++ listing.drop first.length = listing :=
    Applied.atMost_append_drop limit.toNumber listing
  obtain ⟨again, hversions, htimes, hshows', hsame⟩ :=
    redo_shows hm hh ht hk hctx hscan hctx' hshows hclock h
  refine ⟨again, hversions, ?_⟩
  intro listing'
  have hkept : listing'.map (·.version) = listing.map (·.version) ↔
      again.Pairwise fun a b => a.time = b.time → b.version < a.version := by
    have hdistinct := hshows.distinct
    rw [← hparts, List.map_append] at hdistinct
    have h := Applied.order_kept_iff (listing.drop first.length) hversions
      hdistinct.of_append_left htimes
    rwa [hparts] at h
  have hone : Limit.count 1 ≠ .count 0 := nofun
  have hscripts : catalog.HasAll .down (listing'.take 1) := by
    intro a ha
    have hmem : a.version ∈ listing.map (·.version) :=
      hsame.mem_iff.mp (List.mem_map_of_mem (List.mem_of_mem_take ha))
    obtain ⟨b, hb, hversion⟩ := List.mem_map.mp hmem
    exact hversion ▸ hdown b hb
  refine ⟨hshows', hkept, down_reverts hm hh hctx' hscan hshows' hone hscripts, ?_⟩
  intro horder
  rw [List.map_take, hkept.mpr horder, List.map_take]

end Redo

end Migrator

/-! ### Rows that are made within one second -/

namespace Bench

/-- A migrator on a bench whose clock stands still. -/
def still : Migrator Bench :=
  let m := migrator telling
  { m with history := { m.history with
      insert := fun ctx version => do
        ctx.token.check
        memoryPart.change fun memory => { memory.record version with clock := memory.clock } } }

/-- A bench whose history has a table with records. -/
def keeping (records : List Applied) (clock : Int) : Bench :=
  { start [] with memory := ⟨records, true, clock⟩ }

theorem still_insert_ends (ctx : Context Bench) (version : String) (s : Bench) :
    (still.history.insert ctx version).Ends s fun r t => (∃ e, r = .error e ∧ t = s) ∨
      r = .ok () ∧
        t = memoryPart.set { s.memory.record version with clock := s.memory.clock } s := by
  refine .bind (R := fun _ t => t = s) rfl (fun e t h => .inl ⟨e, rfl, h⟩) fun _ t ht => ?_
  rw [ht]
  exact .inr ⟨rfl, rfl⟩

theorem still_runs : still.Runs (Memory.ledger memoryPart heardPart) telling.Serves where
  history := { migrator_runs.history with
    insert := fun ctx _ version s => by
      refine (still_insert_ends ctx version s).mono ?_
      rintro r t (⟨e, rfl, rfl⟩ | ⟨rfl, rfl⟩)
      · exact ⟨rfl, rfl⟩
      · exact ⟨rfl, s.memory.clock, Multiset.coe_eq_coe.mpr (List.perm_append_singleton _ _)⟩ }
  journal := migrator_runs.journal
  confirm := migrator_runs.confirm

theorem still_tracks :
    still.history.Tracks (Memory.ledger memoryPart heardPart) telling.Serves where
  list := migrator_tracks.list
  remove := migrator_tracks.remove

theorem still_timed : still.Timed (Memory.ledger memoryPart heardPart) (Memory.clockOf memoryPart)
    telling.Serves where
  history := { migrator_timed.history with
    insert := fun ctx _ version s => by
      rcases still_insert_ends ctx version s with ⟨e, -, ht⟩ | ⟨-, ht⟩ <;> rw [ht]
      exact le_refl _
    dated := fun ctx _ version s t h time hrows => by
      have hends := still_insert_ends ctx version s
      rw [Action.Ends, h] at hends
      rcases hends with ⟨e, he, -⟩ | ⟨-, rfl⟩
      · cases he
      · have htime : time = Memory.clockOf memoryPart s := Memory.record_dated hrows
        exact ⟨htime.ge, htime.le⟩ }
  journal := migrator_timed.journal
  confirm := migrator_timed.confirm

theorem still_houses : still.Houses (Memory.hasTable memoryPart) telling.Serves where
  history := { migrator_houses.history with
    insert := fun ctx _ version s => by
      rcases still_insert_ends ctx version s with ⟨e, -, ht⟩ | ⟨-, ht⟩ <;> rw [ht]
      rfl }
  journal := migrator_houses.journal
  confirm := migrator_houses.confirm

theorem still_shows (ctx : Context Bench) {s : Bench} {listing : List Applied}
    (htable : s.memory.isCreated = true)
    (hlisting : s.memory.records.insertionSort (fun a b => b.newer a = false) = listing)
    (hdistinct : (s.memory.records.map (·.version)).Nodup) :
    still.history.Shows (Memory.ledger memoryPart heardPart) ctx s listing := by
  rw [← hlisting, ← Applied.newestFirst_eq_insertionSort]
  have h : (migrator telling).history.Shows (Memory.ledger memoryPart heardPart) ctx s
      (Applied.newestFirst s.memory.records) :=
    Memory.history_shows telling false [] ctx htable hdistinct
  exact ⟨h.rows, h.newest, h.distinct, h.table⟩

end Bench

/-- Rows that were made in the order of their versions keep their order, although the rows that are
made again have the same time. -/
theorem Migrator.redo_order_kept :
    let m := Bench.still
    let l := Memory.ledger Bench.memoryPart Bench.heardPart
    let s := Bench.keeping [⟨"210328_221600_a", 10⟩, ⟨"210329_121500_b", 20⟩] 30
    (m.redo .withPairs (.ofToken .never) .all).Ends s fun r u =>
      r.toOption = some ⟨["210329_121500_b", "210328_221600_a"],
        ["210328_221600_a", "210329_121500_b"], false⟩ ∧
      ∃ again : List Applied, again.map (·.version) = ["210329_121500_b", "210328_221600_a"] ∧
        m.history.Shows l (.ofToken .never) u (Applied.newestFirst again) ∧
        again.Pairwise fun a b => a.time = b.time → b.version < a.version := by
  intro m l s
  obtain ⟨catalog, hscan, hdown⟩ : ∃ catalog, Files.withPairs.catalog "/" = .ok catalog ∧
      catalog.HasAll .down [⟨"210329_121500_b", 20⟩, ⟨"210328_221600_a", 10⟩] :=
    Failure.ok_of_any (by decide +kernel)
  have hctx : Bench.telling.Serves (.ofToken .never) := fun _ h => nomatch h
  have hshows : m.history.Shows l (.ofToken .never) s
      [⟨"210329_121500_b", 20⟩, ⟨"210328_221600_a", 10⟩] :=
    Bench.still_shows _ rfl (by decide +kernel) (by decide +kernel)
  have hrun : ((m.redo .withPairs (.ofToken .never) .all).perform s).1.toOption =
        some ⟨["210329_121500_b", "210328_221600_a"], ["210328_221600_a", "210329_121500_b"],
          false⟩ ∧
      ((m.redo .withPairs (.ofToken .never) .all).perform s).2.memory.records =
        [⟨"210328_221600_a", 30⟩, ⟨"210329_121500_b", 30⟩] := by
    simp only [m, Bench.still, Bench.migrator, Memory.history, Memory.listing,
      Applied.newestFirst_eq_insertionSort]
    decide +kernel
  rcases hredo : (m.redo .withPairs (.ofToken .never) .all).perform s with ⟨e | summary, u⟩ <;>
    rw [hredo] at hrun
  · cases hrun.1
  obtain ⟨again, hversions, hshows', hkept, -⟩ :=
    redo_order Bench.still_runs Bench.still_tracks Bench.still_timed Bench.still_houses hctx hscan
      hctx hshows (by decide +kernel) hdown hredo
  have hlisting : Applied.newestFirst again ++ [] =
      [⟨"210329_121500_b", 30⟩, ⟨"210328_221600_a", 30⟩] := by
    refine hshows'.newest.eq_of_coe_eq (by decide +kernel) (hshows'.rows.trans ?_)
    show ((u.memory.records : List Applied) : Multiset Applied) = _
    rw [hrun.2]
    exact Multiset.coe_eq_coe.mpr (.swap _ _ [])
  have hsame := hkept.mp (congrArg (List.map (·.version)) hlisting)
  rw [List.append_nil] at hlisting
  rw [Action.Ends, hredo]
  refine ⟨hrun.1, again, hversions, ?_, hsame⟩
  have hshown : m.history.Shows l (.ofToken .never) u (Applied.newestFirst again ++ []) := hshows'
  rwa [List.append_nil] at hshown

/-- **Rows that were not made in the order of their versions change places** if they are redone
within one second.  The listing is then in the order of the versions, and the next `down` reverts
another migration than it would have before the `redo`. -/
theorem Migrator.redo_turns_order :
    let m := Bench.still
    let l := Memory.ledger Bench.memoryPart Bench.heardPart
    let s := Bench.keeping [⟨"210329_121500_b", 10⟩, ⟨"210328_221600_a", 20⟩] 30
    let listing := [⟨"210328_221600_a", 20⟩, ⟨"210329_121500_b", 10⟩]
    (m.Runs l Bench.telling.Serves ∧ m.history.Tracks l Bench.telling.Serves ∧
      m.Timed l (Memory.clockOf Bench.memoryPart) Bench.telling.Serves ∧
      m.history.Shows l (.ofToken .never) s listing ∧
      (∀ a ∈ listing, a.time ≤ Memory.clockOf Bench.memoryPart s) ∧
      ∃ catalog, Files.withPairs.catalog "/" = .ok catalog ∧ catalog.HasAll .down listing ∧
        catalog.HasAll .up listing) ∧
    ((m.down .withPairs (.ofToken .never) (.count 1)).perform s).1.toOption =
      some ⟨["210328_221600_a"], [], false⟩ ∧
    (m.redo .withPairs (.ofToken .never) .all).Ends s fun r u =>
      r.toOption = some ⟨["210328_221600_a", "210329_121500_b"],
        ["210329_121500_b", "210328_221600_a"], false⟩ ∧
      m.history.Shows l (.ofToken .never) u
        [⟨"210329_121500_b", 30⟩, ⟨"210328_221600_a", 30⟩] ∧
      ((m.down .withPairs (.ofToken .never) (.count 1)).perform u).1.toOption =
        some ⟨["210329_121500_b"], [], false⟩ := by
  intro m l s listing
  have hcatalog : ∃ catalog, Files.withPairs.catalog "/" = .ok catalog ∧
      catalog.HasAll .down listing ∧ catalog.HasAll .up listing :=
    Failure.ok_of_any (by decide +kernel)
  have hshows : m.history.Shows l (.ofToken .never) s listing :=
    Bench.still_shows _ rfl (by decide +kernel) (by decide +kernel)
  refine ⟨⟨Bench.still_runs, Bench.still_tracks, Bench.still_timed, hshows, by decide +kernel,
    hcatalog⟩, ?_, ?_, Bench.still_shows _ ?_ ?_ ?_, ?_⟩
  all_goals
    simp only [m, Bench.still, Bench.migrator, Memory.history, Memory.listing,
      Applied.newestFirst_eq_insertionSort]
    decide +kernel

end SchemaMigration
