import SchemaMigration.Proofs.CatalogOrder
import SchemaMigration.Proofs.ScriptRuns
/-! # The clock of a history

A history dates its rows by a clock.  An action *advances* a clock if it never sets it back
(`Action.Advances`), and a history is *timed* by a clock if all its actions advance it and the time
of a new row is one that the clock shows while the row is made (`History.Timed`).  The clock need
not move between two rows, so rows may have equal times.

Scripts that apply ascending versions while the clock is past all old rows make rows that are newer
than these and, among themselves, newer the later they were made: in the listing they stand in front
of the old rows, in the opposite order (`Migrator.Course.listing`). -/
namespace SchemaMigration

variable {σ α β γ : Type} {now : σ → Int}

/-- The action never sets the clock back. -/
def Action.Advances (now : σ → Int) (a : Action σ α) : Prop := ∀ s, now s ≤ now (a.perform s).2

namespace Action.Advances

variable {a : Action σ α}

theorem of_keeps (h : a.Keeps now) : a.Advances now := fun s => (h s).ge

theorem of_perform (ha : a.Advances now) {s t : σ} {r : Except Failure α}
    (h : a.perform s = (r, t)) : now s ≤ now t := by
  have := ha s
  rwa [h] at this

theorem pure (x : α) : (Pure.pure x : Action σ α).Advances now := fun _ => le_refl _

theorem ofExcept (r : Except Failure α) : (Action.ofExcept r : Action σ α).Advances now :=
  of_keeps (.ofExcept r)

theorem mapFailure (g : Failure → Failure) (ha : a.Advances now) : (a.mapFailure g).Advances now :=
  fun s => ha s

instance (now : σ → Int) : IsPreorder σ fun s t => now s ≤ now t where
  refl _ := le_refl _
  trans _ _ _ := le_trans

theorem bind {f : α → Action σ β} (ha : a.Advances now) (hf : ∀ x, (f x).Advances now) :
    (a >>= f).Advances now :=
  Within.bind (R := fun s t => now s ≤ now t) ha hf

theorem forM {xs : List γ} {f : γ → Action σ PUnit} (hf : ∀ x, (f x).Advances now) :
    (xs.forM f).Advances now :=
  Within.forM (R := fun s t => now s ≤ now t) hf

/-- What wraps actions that advance the clock advances it too. -/
theorem of_wraps {bodies : Action σ Unit → Prop} {b : Action σ Unit} (h : b.Wraps now bodies)
    (hbodies : ∀ body, bodies body → body.Advances now) : b.Advances now := by
  intro s
  rcases h s with ⟨_, _, ht⟩ | ⟨body, u, x, v, hbody, hu, hperform, hv, _⟩
  · exact ht.ge
  · calc now s = now u := hu.symm
      _ ≤ now v := (hbodies body hbody).of_perform hperform
      _ = now (b.perform s).2 := hv.symm

end Action.Advances

/-! ### Histories and migrators with a clock -/

/-- What a history does to the clock when it is called in a context that it serves: nothing sets it
back, and the time of a new row is between the clock before and after it was made. -/
structure History.Timed (h : History σ) (l : Ledger σ) (now : σ → Int) (serves : Context σ → Prop) :
    Prop where
  isCreated : ∀ ctx, serves ctx → (h.isCreated ctx).Advances now
  create : ∀ ctx, serves ctx → (h.create ctx).Advances now
  list : ∀ ctx, serves ctx → ∀ limit, (h.list ctx limit).Advances now
  insert : ∀ ctx, serves ctx → ∀ version, (h.insert ctx version).Advances now
  remove : ∀ ctx, serves ctx → ∀ version, (h.remove ctx version).Advances now
  exec : ∀ ctx, serves ctx → ∀ text, (h.exec ctx text []).Advances now
  transaction : ∀ ctx, serves ctx → ∀ body, (∀ inner, serves inner → (body inner).Advances now) →
    (h.transaction ctx body).Advances now
  dated : ∀ ctx, serves ctx → ∀ version s t, (h.insert ctx version).perform s = (.ok (), t) →
    ∀ time, l.rows t = ⟨version, time⟩ ::ₘ l.rows s → now s ≤ time ∧ time ≤ now t

/-- A migrator none of whose actions sets the clock back. -/
structure Migrator.Timed (m : Migrator σ) (l : Ledger σ) (now : σ → Int)
    (serves : Context σ → Prop) : Prop where
  history : m.history.Timed l now serves
  journal : ∀ level text, (m.journal level text).Advances now
  confirm : ∀ p, (m.confirm p).Advances now

namespace Migrator

variable {m : Migrator σ} {l : Ledger σ} {serves : Context σ → Prop} {files : Files}
variable {ctx : Context σ}

theorem runScript_advances (ht : m.Timed l now serves) (hctx : serves ctx) (safely : Bool)
    (statements : List String) : (m.runScript ctx safely statements).Advances now := by
  have hstatements : ∀ inner, serves inner →
      (statements.forM (m.runStatement inner)).Advances now := fun inner hinner =>
    .forM fun text => (ht.journal _ _).bind fun _ => ht.history.exec inner hinner text
  rw [runScript]
  split
  · exact ht.history.transaction ctx hctx _ hstatements
  · exact hstatements ctx hctx

theorem note_advances (ht : m.Timed l now serves) (hctx : serves ctx) (direction : Direction)
    (version : String) : (m.note ctx direction version).Advances now := by
  cases direction with
  | up => exact ht.history.insert ctx hctx version
  | down => exact ht.history.remove ctx hctx version

/-- A script does not set the clock back, whichever way it goes and however it ends. -/
theorem execute_advances (ht : m.Timed l now serves) (hctx : serves ctx) (f : MigrationFile) :
    (m.execute files ctx f).Advances now :=
  .bind (.ofExcept _) fun statements =>
    (runScript_advances ht hctx f.safely statements).bind fun _ =>
      note_advances ht hctx f.direction f.version

/-- Nor do scripts one after another. -/
theorem Course.advances (ht : m.Timed l now serves) (hctx : serves ctx) {s t : σ}
    {fs : List MigrationFile} (h : Course m files ctx s fs t) : now s ≤ now t := by
  induction h with
  | done => exact le_refl _
  | step h _ ih => exact le_trans ((execute_advances ht hctx _).of_perform h) ih

/-- The row of a script that applies is dated while the script runs. -/
theorem execute_dated (hm : m.Runs l serves) (ht : m.Timed l now serves) (hctx : serves ctx)
    {f : MigrationFile} (hup : f.direction = .up) {s t : σ}
    (h : (m.execute files ctx f).perform s = (.ok (), t)) {time : Int}
    (hrows : l.rows t = ⟨f.version, time⟩ ::ₘ l.rows s) : now s ≤ time ∧ time ≤ now t := by
  rw [execute] at h
  cases hstatements : f.statements files with
  | error e =>
    rw [hstatements] at h
    cases h
  | ok statements =>
    rw [hstatements, Action.perform_ofExcept_ok_bind] at h
    have hends := runScript_ends hm hctx f.safely statements s
    rcases hscript : (m.runScript ctx f.safely statements).perform s with ⟨e | x, u⟩
    · rw [Action.perform_bind_error hscript] at h
      cases h
    · rw [Action.perform_bind_ok hscript] at h
      rw [Action.Ends, hscript] at hends
      have hinsert : (m.history.insert ctx f.version).perform u = (.ok (), t) := by
        rwa [show m.note ctx f.direction f.version = m.history.insert ctx f.version by
          rw [hup]; rfl] at h
      have hsu : now s ≤ now u := (runScript_advances ht hctx _ _).of_perform hscript
      obtain ⟨hbefore, hafter⟩ :=
        ht.history.dated ctx hctx f.version u t hinsert time (hends.1 ▸ hrows)
      exact ⟨le_trans hsu hbefore, hafter⟩

/-- Scripts that apply add a row for each of their versions, dated one after another while they
run. -/
theorem Course.dated (hm : m.Runs l serves) (ht : m.Timed l now serves) (hctx : serves ctx)
    {s t : σ} {fs : List MigrationFile} (hup : ∀ f ∈ fs, f.direction = .up)
    (h : Course m files ctx s fs t) :
    ∃ again : List Applied, again.map (·.version) = fs.map (·.version) ∧
      l.rows t = again + l.rows s ∧ again.Pairwise (fun a b => a.time ≤ b.time) ∧
      ∀ a ∈ again, now s ≤ a.time := by
  induction h with
  | done => exact ⟨[], rfl, (Multiset.zero_add _).symm, .nil, nofun⟩
  | @step s t u f rest h hrest ih =>
    have hf : (m.execute files ctx f).Ends s _ :=
      execute_ends hm hctx (hup f List.mem_cons_self) s
    rw [Action.Ends, h] at hf
    obtain ⟨⟨time, hrows⟩, -⟩ := hf
    obtain ⟨hbefore, hafter⟩ := execute_dated hm ht hctx (hup f List.mem_cons_self) h hrows
    obtain ⟨again, hversions, hrows', htimes, hlater⟩ :=
      ih fun g hg => hup g (List.mem_cons_of_mem _ hg)
    refine ⟨⟨f.version, time⟩ :: again, ?_, ?_, ?_, ?_⟩
    · rw [List.map_cons, List.map_cons, hversions]
    · rw [hrows', hrows, Multiset.add_cons, ← Multiset.cons_coe, Multiset.cons_add]
    · exact List.pairwise_cons.mpr ⟨fun a ha => le_trans hafter (hlater a ha), htimes⟩
    · intro a ha
      rcases List.mem_cons.mp ha with rfl | ha
      · exact hbefore
      · exact le_trans (le_trans hbefore hafter) (hlater a ha)

/-- Rows of ascending versions that were dated one after another, and later than a listing, stand in
front of it in the opposite order. -/
theorem newest_reverse_append {again listing : List Applied}
    (hversions : again.Pairwise fun a b => a.version < b.version)
    (htimes : again.Pairwise fun a b => a.time ≤ b.time)
    (hold : ∀ a ∈ again, ∀ b ∈ listing, b.time < a.time) (hlisting : Applied.Newest listing) :
    Applied.Newest (again.reverse ++ listing) := by
  refine List.pairwise_append.mpr ⟨?_, hlisting, fun a ha b hb => ?_⟩
  · refine List.pairwise_reverse.mpr ((hversions.and htimes).imp fun {a b} ⟨hversion, htime⟩ => ?_)
    -- of two rows of the same time, the one with the greater version comes first
    rcases lt_or_eq_of_le htime with hlt | heq
    · exact Applied.not_newer_iff.mpr (.inl hlt)
    · exact Applied.not_newer_iff.mpr (.inr ⟨heq.symm, le_of_lt hversion⟩)
  · exact Applied.not_newer_iff.mpr (.inl (hold a (List.mem_reverse.mp ha) b hb))

/-- **The listing after scripts that apply** ascending versions, when the clock is past all rows:
the new rows, the last one first, and then the listing from before. -/
theorem Course.listing (hm : m.Runs l serves) (ht : m.Timed l now serves) (hctx : serves ctx)
    {s t : σ} {fs : List MigrationFile} (hup : ∀ f ∈ fs, f.direction = .up)
    (hascending : Catalog.Ascending fs) (h : Course m files ctx s fs t) {listing : List Applied}
    (hrows : (listing : Multiset Applied) = l.rows s) (hnewest : Applied.Newest listing)
    (hclock : ∀ a ∈ listing, a.time < now s) :
    ∃ again : List Applied, again.map (·.version) = fs.map (·.version) ∧
      ((again.reverse ++ listing : List Applied) : Multiset Applied) = l.rows t ∧
      Applied.Newest (again.reverse ++ listing) := by
  obtain ⟨again, hversions, hrows', htimes, hlater⟩ := h.dated hm ht hctx hup
  refine ⟨again, hversions, ?_, newest_reverse_append ?_ htimes ?_ hnewest⟩
  · rw [hrows', ← hrows, ← Multiset.coe_add, Multiset.coe_reverse]
  · have hsorted : (again.map (·.version)).Pairwise (· < ·) := by
      rw [hversions]
      exact List.pairwise_map.mpr hascending
    exact List.pairwise_map.mp hsorted
  · exact fun a ha b hb => lt_of_lt_of_le (hclock b hb) (hlater a ha)

end Migrator

/-! ### The clock of a history in memory -/

section Memory

variable {place : Part σ Memory} {heard : Part σ (List String)} {b : Backend σ}
variable {c : Connection σ}

/-- The time that a history in memory gives to its next record. -/
def Memory.clockOf (place : Part σ Memory) (s : σ) : Int := (place.get s).clock

/-- A record is made at the time that the clock shows, or nothing happens. -/
theorem Memory.insert_ends (ctx : Context σ) (alwaysSafe : Bool) (broken : List String)
    (version : String) (s : σ) :
    ((Memory.history place c alwaysSafe broken).insert ctx version).Ends s fun r t =>
      (∃ e, r = .error e ∧ t = s) ∨
        r = .ok () ∧ t = place.set ((place.get s).record version) s := by
  refine .bind (R := fun _ t => t = s) rfl (fun e t h => .inl ⟨e, rfl, h⟩) fun _ t ht => ?_
  refine .bind (R := fun _ u => u = s) (ht ▸ checkWritable_ends broken version t)
    (fun e t h => .inl ⟨e, rfl, h⟩) fun _ u hu => ?_
  rw [hu]
  exact .inr ⟨rfl, rfl⟩

/-- A record lets the clock go on. -/
theorem Memory.record_advances (version : String) (s : σ) :
    Memory.clockOf place s ≤
      Memory.clockOf place (place.set ((place.get s).record version) s) := by
  rw [Memory.clockOf, Memory.clockOf, place.get_set, Memory.record]
  exact Int.le_add_one (le_refl _)

/-- The time of the row that a record adds is what the clock shows. -/
theorem Memory.record_dated {version : String} {time : Int} {s : σ}
    (h : (Memory.ledger place heard).rows (place.set ((place.get s).record version) s) =
      ⟨version, time⟩ ::ₘ (Memory.ledger place heard).rows s) :
    time = Memory.clockOf place s := by
  have hrecords : (((place.get (place.set ((place.get s).record version) s)).records :
      List Applied) : Multiset Applied) =
        ⟨version, (place.get s).clock⟩ ::ₘ (place.get s).records := by
    rw [place.get_set]
    exact Multiset.coe_eq_coe.mpr (List.perm_append_singleton _ _)
  have hrow : (⟨version, time⟩ : Applied) = ⟨version, (place.get s).clock⟩ :=
    (Multiset.cons_inj_left _).mp (h.symm.trans hrecords)
  exact congrArg Applied.time hrow

variable (hc : c.backend = b.heard fun text => heard.change (· ++ [text]))
variable (hplace : ∀ texts s, place.get (heard.set texts s) = place.get s)
variable (hb : b.Keeps (Memory.clockOf place))
include hc hplace hb

/-- A history in memory is timed by its own clock, over every backend that leaves it alone. -/
theorem Memory.history_timed (alwaysSafe : Bool) (broken : List String) :
    (Memory.history place c alwaysSafe broken).Timed (Memory.ledger place heard)
      (Memory.clockOf place) c.Serves where
  isCreated ctx _ := .of_keeps (.bind (.read _) fun _ => .pure _)
  create ctx _ s := by
    show (place.get s).clock ≤ (place.get (place.set _ s)).clock
    rw [place.get_set]
  list ctx _ limit := .of_keeps (.bind (.read _) fun _ => .pure _)
  insert ctx _ version s := by
    rcases Memory.insert_ends ctx alwaysSafe broken version s with ⟨e, -, ht⟩ | ⟨-, ht⟩ <;> rw [ht]
    exact Memory.record_advances version s
  remove ctx _ version := by
    refine .of_keeps (.bind (.check _) fun _ => .bind (fun s => ?_) fun _ s => ?_)
    · rw [show ((checkWritable broken version).perform s).2 = s from
        checkWritable_ends broken version s]
    · show (place.get (place.set _ s)).clock = (place.get s).clock
      rw [place.get_set]
      rfl
  exec ctx hctx text := by
    have htold : ∀ texts s, clockOf place (heard.set texts s) = clockOf place s :=
      fun texts s => congrArg Memory.clock (hplace texts s)
    exact .of_keeps (.bind (Connection.exec_keeps hc htold hb hctx text []) fun _ => .pure _)
  transaction ctx _ body hbody := by
    refine .of_wraps (Connection.transaction_serves hc hb ctx body) ?_
    rintro _ ⟨inner, hinner, rfl⟩
    exact hbody inner hinner
  dated ctx _ version s t h time hrows := by
    have hends : ((Memory.history place c alwaysSafe broken).insert ctx version).Ends s _ :=
      Memory.insert_ends ctx alwaysSafe broken version s
    rw [Action.Ends, h] at hends
    rcases hends with ⟨e, he, -⟩ | ⟨-, ht⟩
    · cases he
    · subst ht
      rw [Memory.record_dated hrows]
      exact ⟨le_refl _, Memory.record_advances version s⟩

end Memory

theorem Bench.migrator_timed :
    (migrator telling).Timed (Memory.ledger memoryPart heardPart) (Memory.clockOf memoryPart)
      telling.Serves where
  history := Memory.history_timed rfl (fun _ _ => rfl) (Recorder.backend_keeps fun _ _ => rfl)
    false []
  journal _ _ := .pure _
  confirm _ := .pure _

end SchemaMigration
