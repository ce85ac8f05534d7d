import SchemaMigration.Proofs.Planning
import SchemaMigration.Proofs.ScriptRuns
/-! # The progress of reverting

How far a run of `down` or `redo` gets, and what the history says of it.  Both revert the first
rows of the listing; `redo` then applies them again in the opposite order.  Wherever a run stops,
the rows that have been reverted so far are gone, those that have been applied again are back, and
all others stand as they stood (`Remains`, `Migrator.revert_progress`). -/
namespace SchemaMigration

variable {σ : Type}

/-! ### Plans that revert -/

namespace Plan

variable {catalog : Catalog} {rows : List Applied}

theorem back_ok (h : catalog.HasAll .down rows) :
    ∃ p, back catalog rows = .ok p ∧ catalog.Scripts .down rows p.downs ∧ p.ups = [] := by
  obtain ⟨downs, hdowns⟩ := scripts_ok h
  have hback : back catalog rows = .ok ⟨.revert, downs, []⟩ := by
    rw [back, hdowns]
    rfl
  exact ⟨_, hback, back_of_ok hback⟩

theorem again_ok (hdown : catalog.HasAll .down rows) (hup : catalog.HasAll .up rows) :
    ∃ p, again catalog rows = .ok p ∧ catalog.Scripts .down rows p.downs ∧
      catalog.Scripts .up rows.reverse p.ups := by
  obtain ⟨downs, hdowns⟩ := scripts_ok hdown
  have hreverse : catalog.HasAll .up rows.reverse := fun a ha => hup a (List.mem_reverse.mp ha)
  obtain ⟨ups, hups⟩ := scripts_ok hreverse
  refine ⟨⟨.redo, downs, ups⟩, ?_, scripts_of_ok hdowns, scripts_of_ok hups⟩
  rw [again, hdowns, hups]
  rfl

end Plan

/-! ### What remains of a listing -/

/-- The rows after `k` scripts of a plan that reverts the first `n` rows of a listing and then
applies those of `back`: the rows that were reverted are gone, those that were applied are back
with times of their own, and the others are untouched. -/
def Remains (listing : List Applied) (n : Nat) (back : List Applied) (k : Nat)
    (rows : Multiset Applied) : Prop :=
  ∃ again : List Applied, again.map (·.version) = (back.take (k - n)).map (·.version) ∧
    rows = again + listing.drop (min k n)

/-- In the end a listing whose first rows were reverted and applied again has the same versions. -/
theorem Remains.versions {listing : List Applied} {n : Nat} {rows : Multiset Applied}
    (h : Remains listing n (listing.take n).reverse (n + n) rows) :
    rows.map (·.version) = listing.map (·.version) := by
  obtain ⟨again, hversions, rfl⟩ := h
  have hall : ((listing.take n).reverse).take (n + n - n) = (listing.take n).reverse := by
    refine List.take_of_length_le ?_
    rw [List.length_reverse, List.length_take]
    omega
  rw [hall] at hversions
  rw [Multiset.map_add, Multiset.map_coe, Multiset.map_coe, hversions,
    Nat.min_eq_right (Nat.le_add_left n n), List.map_reverse, Multiset.coe_reverse,
    Multiset.coe_add, ← List.map_append, List.take_append_drop]

namespace Migrator

variable {m : Migrator σ} {l : Ledger σ} {serves : Context σ → Prop} {files : Files}
variable {ctx : Context σ} {s : σ} {listing : List Applied}

/-! ### Carrying out a plan -/

/-- How the scripts of a plan are carried out from a state, by whether they succeed: the answer,
the rows of the history, which `after` describes by the number of scripts that have run, and the
statements that were sent. -/
structure Carried (m : Migrator σ) (l : Ledger σ) (files : Files) (ctx : Context σ)
    (after : Nat → Multiset Applied → Prop) (s : σ) (p : Plan) (r : Except Failure Summary)
    (v : σ) : Prop where
  /-- All scripts succeed. -/
  complete : ∀ u, Course m files ctx s p.steps u →
    r = .ok ⟨p.downs.map (·.version), p.ups.map (·.version), false⟩ ∧ v = u ∧
    after p.steps.length (l.rows v) ∧
    l.sent v = l.sent s ++ p.steps.flatMap (·.statementsOf files)
  /-- `f` is the first script that fails. -/
  stopped : ∀ before f rest u e w, p.steps = before ++ f :: rest →
    Course m files ctx s before u → (m.execute files ctx f).perform u = (.error e, w) →
    r = .error (.migrationFailed f.version before.length p.steps.length e) ∧ v = w ∧
    after before.length (l.rows v) ∧
    ∃ j, l.sent v = l.sent s ++ before.flatMap (·.statementsOf files) ++
      (f.statementsOf files).take j
  /-- There is no third way. -/
  total : (∃ u, Course m files ctx s p.steps u) ∨
    ∃ before f rest u e w, p.steps = before ++ f :: rest ∧ Course m files ctx s before u ∧
      (m.execute files ctx f).perform u = (.error e, w)

/-- What is told of a plan whose scripts have all run. -/
theorem foldl_add_steps {p : Plan} (hdowns : ∀ f ∈ p.downs, f.direction = .down)
    (hups : ∀ f ∈ p.ups, f.direction = .up) :
    p.steps.foldl Summary.add .empty =
      ⟨p.downs.map (·.version), p.ups.map (·.version), false⟩ := by
  rw [Plan.steps, List.foldl_append, foldl_add_downs hdowns, foldl_add_ups hups]
  rfl

theorem run_carried (hm : m.Runs l serves) (hh : m.history.Tracks l serves) (hctx : serves ctx)
    {p : Plan} (hdowns : ∀ f ∈ p.downs, f.direction = .down) (hups : ∀ f ∈ p.ups, f.direction = .up)
    (hagrees : m.Agrees p s) {after : Nat → Multiset Applied → Prop}
    (hafter : ∀ k ≤ p.steps.length, ∀ u, Course m files ctx (m.agreed p s) (p.steps.take k) u →
      after k (l.rows u)) :
    (m.run files ctx p).Ends s (Carried m l files ctx after (m.agreed p s) p) := by
  rw [Action.Ends, run_eq_proceed hagrees]
  refine ⟨fun u h => ?_, fun before f rest u e w hsteps h hf => ?_,
    course_or_failure m files ctx _ p.steps⟩
  · rw [proceed_of_complete h, foldl_add_steps hdowns hups]
    refine ⟨rfl, rfl, hafter _ (le_refl _) u ?_, h.sent hm hh hctx⟩
    rwa [List.take_length]
  · have hends : (m.execute files ctx f).Ends u _ := execute_sends hm hh hctx f u
    rw [Action.Ends, hf] at hends
    obtain ⟨hrows, j, hsent⟩ := hends
    rw [proceed_of_stopped hsteps h hf]
    refine ⟨rfl, rfl, ?_, j, by rw [hsent, h.sent hm hh hctx]⟩
    have hlength : before.length ≤ p.steps.length := by
      rw [hsteps, List.length_append]
      exact Nat.le_add_right _ _
    -- the script that failed leaves the rows as the scripts before it did
    rw [hrows]
    refine hafter _ hlength u ?_
    rwa [hsteps, List.take_left]

/-- The rows after the first scripts of a plan for the first rows of a listing. -/
theorem remains_of_course (hm : m.Runs l serves) (hh : m.history.Tracks l serves)
    (hctx : serves ctx) {p : Plan} (hdowns : ∀ f ∈ p.downs, f.direction = .down)
    (hups : ∀ f ∈ p.ups, f.direction = .up) {n : Nat} {back : List Applied}
    (hreverted : p.downs.map (·.version) = (listing.take n).map (·.version))
    (happlied : p.ups.map (·.version) = back.map (·.version)) (hn : n ≤ listing.length)
    (hrows : (listing : Multiset Applied) = l.rows s)
    (hdistinct : (listing.map (·.version)).Nodup) {k : Nat} {u : σ}
    (h : Course m files ctx s (p.steps.take k) u) : Remains listing n back k (l.rows u) := by
  have hlength : p.downs.length = n := by
    have := congrArg List.length hreverted
    rw [List.length_map, List.length_map, List.length_take] at this
    omega
  rw [Plan.steps, List.take_append, hlength] at h
  obtain ⟨t, hfirst, hsecond⟩ := h.split
  have hgone : (p.downs.take k).map (·.version) = (listing.take (min k n)).map (·.version) := by
    rw [List.map_take, hreverted, ← List.map_take, List.take_take]
  have hleft : l.rows t = listing.drop (min k n) := by
    rw [← List.take_append_drop (min k n) listing] at hrows hdistinct
    rw [hfirst.reverts hm hh hctx fun f hf => hdowns f (List.mem_of_mem_take hf), ← hrows, hgone,
      Multiset.filter_coe, Applied.filter_append_versions hdistinct]
  obtain ⟨⟨again, hversions, hadded⟩, -⟩ :=
    hsecond.applies hm hctx fun f hf => hups f (List.mem_of_mem_take hf)
  refine ⟨again, ?_, ?_⟩
  · rw [hversions, List.map_take, happlied, ← List.map_take]
  · rw [hadded, hleft]

/-! ### The plan -/

/-- The rows that are read are the first ones of the listing, none if there is no table. -/
theorem applied_lists (hm : m.Runs l serves) (hh : m.history.Tracks l serves) (hctx : serves ctx)
    (hrows : (listing : Multiset Applied) = l.rows s) (hnewest : Applied.Newest listing)
    (htable : ((m.history.isCreated ctx).perform s).1 = .ok false → listing = [])
    (limit : Limit) :
    (m.applied ctx limit).Ends s fun r t => l.view t = l.view s ∧
      ∀ rows, r = .ok rows → rows = Applied.atMost limit.toNumber listing := by
  refine .bind (R := fun r t => l.view t = l.view s ∧ (r = .ok false → listing = []))
    ⟨hm.history.isCreated ctx hctx s, htable⟩ (fun _ _ ht => ⟨ht.1, nofun⟩) ?_
  rintro created t ⟨ht, hnone⟩
  cases created with
  | false =>
    refine ⟨ht, fun rows hr => ?_⟩
    cases hr
    rw [hnone rfl, Applied.atMost]
    split
    · rfl
    · exact List.take_nil.symm
  | true =>
    refine (hh.list ctx hctx limit.toNumber t).mono fun r u h => ⟨h.1.trans ht, fun rows hr => ?_⟩
    obtain ⟨all, hall, hrows', rfl⟩ := h.2 rows hr
    have hsame : (all : Multiset Applied) = listing := by
      rw [hrows', (Prod.mk.inj ht).1, hrows]
    rw [hall.eq_of_coe_eq hnewest hsame]

/-- The rows that a bounded listing shows are the first ones of the history. -/
theorem applied_ends (hm : m.Runs l serves) (hh : m.history.Tracks l serves) (hctx : serves ctx)
    (hshows : m.history.Shows l ctx s listing) {limit : Limit} (hlimit : limit ≠ .count 0) :
    (m.applied ctx limit).Ends s fun r t => l.view t = l.view s ∧
      ∀ rows, r = .ok rows → rows = limit.truncate listing := by
  have hlists := applied_lists hm hh hctx hshows.rows hshows.newest hshows.table limit
  rwa [Applied.atMost_toNumber hlimit] at hlists

/-- How an operation goes that plans for the first rows `r` of a listing and applies those of `back`
again.  Making the plan changes nothing, and fails only if the history cannot be read.  The plan
has the down scripts of `r` and the up scripts of `back`, and if it may be carried out, it is. -/
def Reverts (m : Migrator σ) (l : Ledger σ) (files : Files) (ctx : Context σ) (catalog : Catalog)
    (limit : Limit) (listing r back : List Applied) (s : σ) (planning : Action σ Plan)
    (operation : Action σ Summary) : Prop :=
  match planning.perform s with
  | (.error e, t) => (m.applied ctx limit).perform s = (.error e, t) ∧
      operation.perform s = (.error e, t) ∧ l.view t = l.view s
  | (.ok p, t) => l.view (m.agreed p t) = l.view s ∧
      catalog.Scripts .down r p.downs ∧ catalog.Scripts .up back p.ups ∧
      (m.Agrees p t → operation.Ends s
        (Carried m l files ctx (Remains listing r.length back) (m.agreed p t) p))

/-- The planning of `down` and of `redo`: a plan for the first rows of the history, or an idle one
if there are none. -/
def planFirst (m : Migrator σ) (files : Files) (ctx : Context σ) (limit : Limit) (idle : Plan)
    (plan : List Applied → Catalog → Except Failure Plan) : Action σ Plan :=
  m.applied ctx limit >>= fun applied =>
    if applied.isEmpty then pure idle
    else Action.ofExcept (files.catalog m.directory) >>= fun catalog =>
      Action.ofExcept (plan applied catalog)

/-- A plan that was made is for the rows that were read, or there were none. -/
theorem planFirst_ok {limit : Limit} {idle : Plan}
    {plan : List Applied → Catalog → Except Failure Plan} {p : Plan} {t : σ}
    (h : (m.planFirst files ctx limit idle plan).perform s = (.ok p, t)) :
    ∃ rows, (m.applied ctx limit).perform s = (.ok rows, t) ∧ ((rows = [] ∧ p = idle) ∨
      ∃ catalog, files.catalog m.directory = .ok catalog ∧ plan rows catalog = .ok p) := by
  rw [planFirst] at h
  rcases hread : (m.applied ctx limit).perform s with ⟨e | rows, u⟩
  · rw [Action.perform_bind_error hread] at h
    cases h
  rw [Action.perform_bind_ok hread] at h
  split at h
  · rename_i hempty
    cases h
    exact ⟨rows, rfl, .inl ⟨List.isEmpty_iff.mp hempty, rfl⟩⟩
  · cases hscan : files.catalog m.directory with
    | error e =>
      rw [hscan] at h
      cases h
    | ok catalog =>
      rw [hscan, Action.perform_ofExcept_ok_bind, Action.perform_ofExcept] at h
      obtain ⟨hp, rfl⟩ := Prod.mk.inj h
      exact ⟨rows, rfl, .inr ⟨catalog, rfl, hp⟩⟩

section Planning

variable {catalog : Catalog} {limit : Limit} {back : List Applied}
variable (idle : Plan) (plan : List Applied → Catalog → Except Failure Plan)
variable (hm : m.Runs l serves) (hh : m.history.Tracks l serves) (hctx : serves ctx)
variable (hscan : files.catalog m.directory = .ok catalog)
variable (hshows : m.history.Shows l ctx s listing) (hlimit : limit ≠ .count 0)
variable (hidle : limit.truncate listing = [] → idle.downs = [] ∧ idle.ups = [] ∧ back = [])
variable (hplan : ∃ p, plan (limit.truncate listing) catalog = .ok p ∧
  catalog.Scripts .down (limit.truncate listing) p.downs ∧ catalog.Scripts .up back p.ups)
include hm hh hctx hscan hshows hlimit hidle hplan

/-- Making the plan changes nothing, and it fails only where the history cannot be read. -/
theorem planFirst_ends : (m.planFirst files ctx limit idle plan).Ends s fun r t =>
    l.view t = l.view s ∧ match r with
      | .error e => (m.applied ctx limit).perform s = (.error e, t)
      | .ok p => catalog.Scripts .down (limit.truncate listing) p.downs ∧
          catalog.Scripts .up back p.ups := by
  refine .bind (R := fun r t => (m.applied ctx limit).perform s = (r, t) ∧ l.view t = l.view s ∧
    ∀ rows, r = .ok rows → rows = limit.truncate listing)
    ⟨rfl, applied_ends hm hh hctx hshows hlimit⟩ (fun e t ⟨h, ht, _⟩ => ⟨ht, h⟩) ?_
  rintro rows t ⟨-, ht, hrows⟩
  obtain rfl := hrows rows rfl
  split
  · rename_i hempty
    obtain ⟨hdowns, hups, hback⟩ := hidle (List.isEmpty_iff.mp hempty)
    rw [List.isEmpty_iff.mp hempty, hback]
    exact ⟨ht, hdowns ▸ .nil catalog .down, hups ▸ .nil catalog .up⟩
  · obtain ⟨p, hp, hscripts⟩ := hplan
    rw [hscan, Action.Ends, Action.perform_ofExcept_ok_bind, Action.perform_ofExcept, hp]
    exact ⟨ht, hscripts⟩

/-- An operation that makes a plan for the first rows and runs it. -/
theorem reverts_of_plan : m.Reverts l files ctx catalog limit listing (limit.truncate listing) back
    s (m.planFirst files ctx limit idle plan)
    (m.planFirst files ctx limit idle plan >>= m.run files ctx) := by
  have hends := planFirst_ends idle plan hm hh hctx hscan hshows hlimit hidle hplan
  unfold Reverts
  rcases hplanning : (m.planFirst files ctx limit idle plan).perform s with ⟨e | p, t⟩ <;>
    rw [Action.Ends, hplanning] at hends
  · exact ⟨hends.2, Action.perform_bind_error hplanning, hends.1⟩
  · obtain ⟨ht, hdowns, hups⟩ := hends
    have hview : l.view (m.agreed p t) = l.view s := (hm.view_agreed p t).trans ht
    refine ⟨hview, hdowns, hups, fun hagrees => ?_⟩
    have hdown := hdowns.direction_eq hscan
    have hup := hups.direction_eq hscan
    have hrows : (listing : Multiset Applied) = l.rows (m.agreed p t) :=
      hshows.rows.trans (Prod.mk.inj hview).1.symm
    have hfirst : limit.truncate listing = listing.take (limit.truncate listing).length :=
      limit.truncate_eq_take listing
    rw [Action.Ends, Action.perform_bind_ok hplanning]
    refine run_carried hm hh hctx hdown hup hagrees fun k _ u h => ?_
    refine remains_of_course hm hh hctx hdown hup ?_ hups.versions ?_ hrows hshows.distinct h
    · rw [← hfirst, hdowns.versions]
    · exact limit.length_truncate_le listing

end Planning

/-- Where the operator does not agree, nothing but the question has been asked. -/
theorem run_of_not_agrees (files : Files) (ctx : Context σ) {p : Plan} (h : ¬ m.Agrees p s) :
    ((m.run files ctx p).perform s).2 = ((m.confirm p).perform s).2 := by
  obtain ⟨hempty, hanswer⟩ := Classical.not_imp.mp h
  rw [run, if_neg (by simp [hempty])]
  rcases hconfirm : (m.confirm p).perform s with ⟨e | answer, t⟩
  · rw [Action.perform_bind_error hconfirm]
  · rw [Action.perform_bind_ok hconfirm]
    cases answer with
    | true =>
      rw [hconfirm] at hanswer
      exact absurd rfl hanswer
    | false => rfl

/-- If rows that were reverted are applied again in the opposite order, the history has the same
versions as before. -/
theorem Reverts.versions (hm : m.Runs l serves) {catalog : Catalog} {limit : Limit}
    {r : List Applied} {planning : Action σ Plan} (hrows : (listing : Multiset Applied) = l.rows s)
    (hr : r = listing.take r.length)
    (h : m.Reverts l files ctx catalog limit listing r r.reverse s planning
      (planning >>= m.run files ctx)) {summary : Summary} {u : σ}
    (hok : (planning >>= m.run files ctx).perform s = (.ok summary, u)) :
    l.versions u = l.versions s := by
  unfold Reverts at h
  rcases hplanning : planning.perform s with ⟨e | p, t⟩ <;> rw [hplanning] at h
  · rw [h.2.1] at hok
    cases hok
  · obtain ⟨hview, hdowns, hups, hcarried⟩ := h
    have hrun : (m.run files ctx p).perform t = (.ok summary, u) := by
      rwa [Action.perform_bind_ok hplanning] at hok
    by_cases hagrees : m.Agrees p t
    · have hends := hcarried hagrees
      rw [Action.Ends, hok] at hends
      rcases hends.total with ⟨v, hv⟩ | ⟨before, f, rest, v, e, w, hparts, hv, hf⟩
      · obtain ⟨-, -, hremains, -⟩ := hends.complete v hv
        have hlength : p.steps.length = r.length + r.length := by
          rw [Plan.steps, List.length_append, hdowns.length_eq, hups.length_eq, List.length_reverse]
        have hback : r.reverse = (listing.take r.length).reverse := congrArg List.reverse hr
        rw [hlength, hback] at hremains
        rw [Ledger.versions, hremains.versions, Ledger.versions, ← hrows, Multiset.map_coe]
      · obtain ⟨hr, -⟩ := hends.stopped before f rest v e w hparts hv hf
        cases hr
    · have hstate : u = ((m.confirm p).perform t).2 := by
        rw [← run_of_not_agrees files ctx hagrees, hrun]
      have hconfirm : l.view u = l.view (m.agreed p t) := by
        rw [hm.view_agreed, hstate]
        exact hm.confirm p t
      rw [Ledger.versions, Ledger.versions, (Prod.mk.inj (hconfirm.trans hview)).1]

/-- **The progress of `down` and `redo`**, over every listing of a history, every limit and every
way in which scripts, statements, commits and changes to the history succeed or fail.  Let `r` be
the first rows of the listing, up to the limit, and let their scripts be there:

* `down` runs the down scripts of `r` in the order of the listing, and `redo` runs the up scripts
  of `r` after that, in the opposite order.
* Making the plan changes nothing.  If the operator agrees, or there is none, the run ends as
  `Carried` says: at the first script that fails, the failure counts the scripts before it, and the
  history is what `Remains` of the listing after so many scripts.
* After a successful `redo`, the history has the versions that it had. -/
theorem revert_progress (hm : m.Runs l serves) (hh : m.history.Tracks l serves) (hctx : serves ctx)
    {catalog : Catalog} (hscan : files.catalog m.directory = .ok catalog)
    (hshows : m.history.Shows l ctx s listing) {limit : Limit} (hlimit : limit ≠ .count 0) :
    let r := limit.truncate listing
    (catalog.HasAll .down r →
      m.Reverts l files ctx catalog limit listing r [] s (m.planDown files ctx limit)
        (m.down files ctx limit)) ∧
    (catalog.HasAll .down r → catalog.HasAll .up r →
      m.Reverts l files ctx catalog limit listing r r.reverse s (m.planRedo files ctx limit)
        (m.redo files ctx limit) ∧
      ∀ summary u, (m.redo files ctx limit).perform s = (.ok summary, u) →
        l.versions u = l.versions s) := by
  intro r
  constructor
  · intro hdown
    obtain ⟨p, hp, hdowns, hups⟩ := Plan.back_ok hdown
    exact reverts_of_plan ⟨.revert, [], []⟩ (fun applied catalog => Plan.back catalog applied) hm hh
      hctx hscan hshows hlimit (fun _ => ⟨rfl, rfl, rfl⟩) ⟨p, hp, hdowns, hups ▸ .nil catalog .up⟩
  · intro hdown hup
    obtain ⟨p, hp, hscripts⟩ := Plan.again_ok hdown hup
    have hredo : m.Reverts l files ctx catalog limit listing r r.reverse s
        (m.planRedo files ctx limit) (m.redo files ctx limit) := by
      refine reverts_of_plan ⟨.redo, [], []⟩ (fun applied catalog => Plan.again catalog applied) hm
        hh hctx hscan hshows hlimit (fun hnone => ?_) ⟨p, hp, hscripts⟩
      exact ⟨rfl, rfl, congrArg List.reverse hnone⟩
    exact ⟨hredo, fun summary u => hredo.versions hm hshows.rows (limit.truncate_eq_take listing)⟩

end Migrator

/-- A directory with both scripts of a migration, of which the first cannot be read. -/
def Files.withPair : Files :=
  ⟨[(["210328_221600_a.up.sql"], .file (Text.Utf8.encodeString "A $$")),
    (["210328_221600_a.down.sql"], .file (Text.Utf8.encodeString "UNDO A"))], []⟩

/-- A directory with both scripts of two migrations. -/
def Files.withPairs : Files :=
  ⟨[(["210328_221600_a.up.sql"], .file (Text.Utf8.encodeString "A")),
    (["210328_221600_a.down.sql"], .file (Text.Utf8.encodeString "UNDO A")),
    (["210329_121500_b.up.sql"], .file (Text.Utf8.encodeString "B")),
    (["210329_121500_b.down.sql"], .file (Text.Utf8.encodeString "UNDO B"))], []⟩

/-- A redo whose second script fails leaves the migration reverted. -/
theorem Migrator.revert_progress_stopped :
    let m := Bench.migrator Bench.telling
    let l := Memory.ledger Bench.memoryPart Bench.heardPart
    let s := Bench.holding ["210328_221600_a"]
    let listing := s.memory.listing
    ∃ catalog, Files.withPair.catalog "/" = .ok catalog ∧
      m.Reverts l .withPair (.ofToken .never) catalog .all listing listing listing.reverse s
        (m.planRedo .withPair (.ofToken .never) .all) (m.redo .withPair (.ofToken .never) .all) ∧
      (m.redo .withPair (.ofToken .never) .all).Ends s fun r u =>
        r.mapError Failure.message = .error ("migration 210328_221600_a failed " ++
          "(1 of 2 applied): " ++ Failure.message .unclosedBlock) ∧
        u.memory.records = [] ∧ u.heard = ["UNDO A"] := by
  intro m l s listing
  obtain ⟨catalog, hscan, hdown, hup⟩ : ∃ catalog, Files.withPair.catalog "/" = .ok catalog ∧
      catalog.HasAll .down listing ∧ catalog.HasAll .up listing :=
    Failure.ok_of_any (by decide +kernel)
  have hctx : Bench.telling.Serves (.ofToken .never) := fun _ h => nomatch h
  have hshows : m.history.Shows l (.ofToken .never) s listing :=
    Memory.history_shows Bench.telling false [] _ rfl (by decide +kernel)
  have hlimit : Limit.all ≠ .count 0 := nofun
  obtain ⟨-, hredo⟩ :=
    revert_progress Bench.migrator_runs Bench.migrator_tracks hctx hscan hshows hlimit
  refine ⟨catalog, hscan, (hredo hdown hup).1, ?_⟩
  exact ⟨by decide +kernel, by decide +kernel, by decide +kernel⟩

end SchemaMigration
