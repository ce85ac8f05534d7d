import SchemaMigration.Proofs.HistoryClock
/-! # The table of a history

A history without a table lists nothing, whatever rows it has.  A history *houses* its rows in a
table if it answers whether the table is there, makes it when it is told to, and neither makes nor
drops it otherwise (`History.Houses`).  Then a migrator that has listed the rows of a table once, or
has made the table, finds it again: scripts, notes and transactions keep it
(`Migrator.Course.table`). -/
namespace SchemaMigration

variable {σ : Type} {made : σ → Bool}

/-- What a history does to its table when it is called in a context that it serves. -/
structure History.Houses (h : History σ) (made : σ → Bool) (serves : Context σ → Prop) : Prop where
  isCreated : ∀ ctx, serves ctx → ∀ s, (h.isCreated ctx).Ends s fun r t =>
    made t = made s ∧ ∀ answer, r = .ok answer → answer = made s
  create : ∀ ctx, serves ctx → ∀ s, (h.create ctx).Ends s fun r t => r = .ok () → made t = true
  list : ∀ ctx, serves ctx → ∀ limit, (h.list ctx limit).Keeps made
  insert : ∀ ctx, serves ctx → ∀ version, (h.insert ctx version).Keeps made
  remove : ∀ ctx, serves ctx → ∀ version, (h.remove ctx version).Keeps made
  exec : ∀ ctx, serves ctx → ∀ text, (h.exec ctx text []).Keeps made
  transaction : ∀ ctx, serves ctx → ∀ body,
    (h.transaction ctx body).Wraps made fun b => ∃ inner, serves inner ∧ b = body inner

/-- A migrator whose history has a table that nothing else touches. -/
structure Migrator.Houses (m : Migrator σ) (made : σ → Bool) (serves : Context σ → Prop) :
    Prop where
  history : m.history.Houses made serves
  journal : ∀ level text, (m.journal level text).Keeps made
  confirm : ∀ p, (m.confirm p).Keeps made

namespace Migrator

variable {m : Migrator σ} {l : Ledger σ} {serves : Context σ → Prop} {files : Files}
variable {ctx : Context σ} {s t : σ}

/-! ### What finds the table, and what makes it -/

/-- A reading that succeeds has been answered whether there is a table. -/
theorem applied_table (hk : m.Houses made serves) (hctx : serves ctx) (limit : Limit) (s : σ) :
    (m.applied ctx limit).Ends s fun r t => made t = made s ∧ ∀ rows, r = .ok rows →
      ((m.history.isCreated ctx).perform s).1 = .ok (made s) := by
  have hcreated : (m.history.isCreated ctx).Ends s fun r t =>
      made t = made s ∧ (∀ answer, r = .ok answer → answer = made s) ∧
        ((m.history.isCreated ctx).perform s).1 = r :=
    ⟨(hk.history.isCreated ctx hctx s).1, (hk.history.isCreated ctx hctx s).2, rfl⟩
  refine .bind hcreated (fun e t h => ⟨h.1, nofun⟩) fun answer t h => ?_
  obtain ⟨ht, hanswer, heq⟩ := h
  have hknown : ((m.history.isCreated ctx).perform s).1 = .ok (made s) := by
    rw [heq, hanswer answer rfl]
  cases answer with
  | false => exact ⟨ht, fun _ _ => hknown⟩
  | true => exact ⟨(hk.history.list ctx hctx _ t).trans ht, fun _ _ => hknown⟩

/-- After a reading that makes the table, the table is there. -/
theorem allApplied_table (hk : m.Houses made serves) (hctx : serves ctx) (s : σ) :
    (m.allApplied ctx).Ends s fun r t => ∀ rows, r = .ok rows → made t = true := by
  have htable : (m.ensureTable ctx).Ends s fun r t => r = .ok () → made t = true := by
    refine .bind (hk.history.isCreated ctx hctx s) (fun e t _ => nofun) fun answer t h => ?_
    obtain ⟨ht, hanswer⟩ := h
    cases answer with
    | false => exact hk.history.create ctx hctx t
    | true => exact fun _ => ht.trans (hanswer true rfl).symm
  refine .bind htable (fun e t _ => nofun) fun _ t ht => ?_
  intro rows _
  exact (hk.history.list ctx hctx 0 t).trans (ht rfl)

/-! ### What keeps it -/

theorem runScript_keeps_table (hk : m.Houses made serves) (hctx : serves ctx) (safely : Bool)
    (statements : List String) : (m.runScript ctx safely statements).Keeps made := by
  have hstatements : ∀ inner, serves inner →
      (statements.forM (m.runStatement inner)).Keeps made := fun inner hinner =>
    .forM fun text => (hk.journal _ _).bind fun _ => hk.history.exec inner hinner text
  rw [runScript]
  split
  · refine (hk.history.transaction ctx hctx _).keeps ?_
    rintro _ ⟨inner, hinner, rfl⟩
    exact hstatements inner hinner
  · exact hstatements ctx hctx

theorem execute_keeps_table (hk : m.Houses made serves) (hctx : serves ctx) (f : MigrationFile) :
    (m.execute files ctx f).Keeps made := by
  refine .bind (.ofExcept _) fun statements => ?_
  refine (runScript_keeps_table hk hctx f.safely statements).bind fun _ => ?_
  cases hdirection : f.direction with
  | up => exact hk.history.insert ctx hctx f.version
  | down => exact hk.history.remove ctx hctx f.version

/-- Scripts that succeed leave the table where it is. -/
theorem Course.table (hk : m.Houses made serves) (hctx : serves ctx) {fs : List MigrationFile}
    (h : Course m files ctx s fs t) : made t = made s := by
  induction h with
  | done => rfl
  | step h _ ih => exact ih.trans ((execute_keeps_table hk hctx _).of_perform h)

theorem Houses.made_agreed (hk : m.Houses made serves) (p : Plan) (s : σ) :
    made (m.agreed p s) = made s := by
  rw [agreed]
  split
  · rfl
  · exact hk.confirm p s

/-- What a history with a table shows. -/
theorem Houses.shows (hk : m.Houses made serves) (hctx : serves ctx) {listing : List Applied}
    (hrows : (listing : Multiset Applied) = l.rows s) (hnewest : Applied.Newest listing)
    (hdistinct : (listing.map (·.version)).Nodup) (htable : made s = false → listing = []) :
    m.history.Shows l ctx s listing where
  rows := hrows
  newest := hnewest
  distinct := hdistinct
  table h := htable ((hk.history.isCreated ctx hctx s).2 false h).symm

end Migrator

/-! ### The table of a history in memory -/

section Memory

variable {place : Part σ Memory} {heard : Part σ (List String)} {b : Backend σ}
variable {c : Connection σ}

/-- Whether a history in memory has its table. -/
def Memory.hasTable (place : Part σ Memory) (s : σ) : Bool := (place.get s).isCreated

/-- A history in memory houses its records, over every backend that leaves them alone. -/
theorem Memory.history_houses (hc : c.backend = b.heard fun text => heard.change (· ++ [text]))
    (hplace : ∀ texts s, place.get (heard.set texts s) = place.get s)
    (hb : b.Keeps (Memory.hasTable place)) (alwaysSafe : Bool) (broken : List String) :
    (Memory.history place c alwaysSafe broken).Houses (Memory.hasTable place) c.Serves where
  isCreated ctx _ s := by
    refine ⟨rfl, fun answer h => ?_⟩
    cases h
    rfl
  create ctx _ s := by
    intro _
    show (place.get (place.set _ s)).isCreated = true
    rw [place.get_set]
  list ctx _ limit := .bind (.read _) fun _ => .pure _
  insert ctx _ version s := by
    rcases Memory.insert_ends ctx alwaysSafe broken version s with ⟨e, -, ht⟩ | ⟨-, ht⟩
    · rw [ht]
    · rw [ht, hasTable, place.get_set]
      rfl
  remove ctx _ version := by
    refine .bind (.check _) fun _ => .bind (fun s => ?_) fun _ s => ?_
    · rw [show ((checkWritable broken version).perform s).2 = s from
        checkWritable_ends broken version s]
    · show (place.get (place.set _ s)).isCreated = (place.get s).isCreated
      rw [place.get_set]
      rfl
  exec ctx hctx text := by
    have htold : ∀ texts s, hasTable place (heard.set texts s) = hasTable place s :=
      fun texts s => congrArg Memory.isCreated (hplace texts s)
    exact .bind (Connection.exec_keeps hc htold hb hctx text []) fun _ => .pure _
  transaction ctx _ body := Connection.transaction_serves hc hb ctx body

end Memory

theorem Bench.migrator_houses :
    (migrator telling).Houses (Memory.hasTable memoryPart) telling.Serves where
  history := Memory.history_houses rfl (fun _ _ => rfl) (Recorder.backend_keeps fun _ _ => rfl)
    false []
  journal _ _ := .pure _
  confirm _ := .pure _

end SchemaMigration
