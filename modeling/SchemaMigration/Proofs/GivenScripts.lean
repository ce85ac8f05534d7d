import SchemaMigration.Proofs.DistinctVersions
import SchemaMigration.Proofs.StatementSegments
/-! # Scripts that are given as texts

A migration can be applied or reverted with a script that is given as a text
(`Migrator.upgrade`, `Migrator.downgrade`).  The two differ in what they refuse and in what they
note, so they are one operation in two directions (`Migrator.given`).  It asks the history, reads
the whole script, runs its statements and notes the version, and each of these four can end it.
What is refused or cannot be read ends before anything is sent.  What is left succeeds exactly if
every call on the way does (`Completes`), and then each statement was sent once, in order, and the
rows of no other version have changed (`Migrator.given_ends`). -/
namespace SchemaMigration

variable {σ α β : Type}

/-- The version was noted: one row more when it is applied, and none of its rows left when it is
reverted.  The rows of other versions are those from before. -/
def Ledger.Noted (l : Ledger σ) (direction : Direction) (version : String) (s t : σ) : Prop :=
  match direction with
  | .up => ∃ time, l.rows t = ⟨version, time⟩ ::ₘ l.rows s
  | .down => l.rows t = (l.rows s).filter (·.version ≠ version)

theorem Ledger.Noted.of_rows {l : Ledger σ} {direction : Direction} {version : String} {s s' t : σ}
    (h : l.Noted direction version s' t) (hrows : l.rows s' = l.rows s) :
    l.Noted direction version s t := by
  unfold Noted at h ⊢
  rwa [hrows] at h

namespace Migrator

variable {m : Migrator σ} {c : Connection σ} {l : Ledger σ} {serves : Context σ → Prop}
variable {ctx : Context σ}

/-! ### What is relied on -/

/-- What a migrator relies on when it is given a script as a text.  The history knows its versions,
its transactions are those of the connection, and a write to it that succeeds has noted the version;
of a write that fails nothing is assumed.  A statement is sent at most once and leaves the rows
alone, and so do the begin and the ends of a transaction. -/
structure TakesScripts (m : Migrator σ) (c : Connection σ) (l : Ledger σ)
    (serves : Context σ → Prop) : Prop where
  knows : m.history.Knows l serves
  journal : ∀ level text, (m.journal level text).Keeps l.view
  exec : ∀ ctx, serves ctx → ∀ text s, (m.history.exec ctx text []).Ends s (l.Sends text s)
  transaction : m.history.transaction = c.transaction
  opened : ∀ ctx id, serves ctx → serves (c.opened ctx id)
  begin : ∀ ctx, serves ctx → (c.backend.begin ctx.token).Keeps l.view
  commit : ∀ ctx id, serves ctx → (c.backend.transaction ctx.token id).commit.Keeps l.view
  rollback : ∀ ctx id, serves ctx → (c.backend.transaction ctx.token id).rollback.Keeps l.view
  note : ∀ ctx, serves ctx → ∀ direction version s t,
    (m.note ctx direction version).perform s = (.ok (), t) →
      l.sent t = l.sent s ∧ l.Noted direction version s t

section Statements

variable (hm : m.TakesScripts c l serves) (hctx : serves ctx)
include hm hctx

theorem RunsAll.sends {statements : List String} {s t : σ} (h : RunsAll m ctx statements s t) :
    l.rows t = l.rows s ∧ l.sent t = l.sent s ++ statements := by
  induction h with
  | nil => exact ⟨rfl, (List.append_nil _).symm⟩
  | @cons s t u text rest h _ ih =>
    have hfirst := runStatement_sends hm.journal (hm.exec ctx hctx) text s
    rw [Action.Ends, h] at hfirst
    obtain ⟨hrows, hsent⟩ := hfirst
    refine ⟨ih.1.trans hrows, ?_⟩
    rw [ih.2, hsent, List.append_assoc, List.singleton_append]

/-- A script that runs to its end has sent each of its statements once, in order, and has left the
rows alone. -/
theorem Completes.sends {statements : List String} {safely : Bool} {s t : σ}
    (h : Completes m c ctx statements safely s t) :
    l.rows t = l.rows s ∧ l.sent t = l.sent s ++ statements := by
  cases h with
  | plain h => exact h.sends hm hctx
  | safe _ _ hbegin hbody hcommit =>
    obtain ⟨hrows, hsent⟩ := hbody.sends hm (hm.opened ctx _ hctx)
    obtain ⟨hrows₁, hsent₁⟩ := Prod.mk.inj ((hm.begin ctx hctx).of_perform hbegin)
    obtain ⟨hrows₂, hsent₂⟩ := Prod.mk.inj ((hm.commit ctx _ hctx).of_perform hcommit)
    exact ⟨hrows₂.trans (hrows.trans hrows₁), by rw [hsent₂, hsent, hsent₁]⟩

/-- However a script ends, it leaves the rows alone. -/
theorem runScript_leaves_rows (safely : Bool) (statements : List String) :
    (m.runScript ctx safely statements).Keeps l.rows := by
  have hrows {α : Type} {a : Action σ α} (h : a.Keeps l.view) : a.Keeps l.rows :=
    fun s => (Prod.mk.inj (h s)).1
  have hall (inner : Context σ) (hinner : serves inner) :
      (statements.forM (m.runStatement inner)).Keeps l.rows :=
    .forM fun text s => (runStatement_sends hm.journal (hm.exec inner hinner) text s).1
  rw [runScript]
  split
  · rw [hm.transaction]
    refine (c.transaction_wraps ctx _ (hrows (hm.begin ctx hctx))
      (fun id => hrows (hm.commit ctx id hctx)) fun id => hrows (hm.rollback ctx id hctx)).keeps ?_
    rintro _ ⟨id, rfl⟩
    exact hall _ (hm.opened ctx id hctx)
  · exact hall ctx hctx

end Statements

/-! ### One script, in either direction -/

/-- Applies a script that is given as a text and records its version, or reverts a migration with
it and forgets the version. -/
def given (m : Migrator σ) (ctx : Context σ) (direction : Direction) (version script : String)
    (safely : Bool) : Action σ Unit :=
  match direction with
  | .up => m.upgrade ctx version script safely
  | .down => m.downgrade ctx version script safely

/-- How a script is refused: the version is there already, or it is not there. -/
def refusal (direction : Direction) (version : String) : Failure :=
  match direction with
  | .up => .migrationAlreadyExists version
  | .down => .appliedMigrationNotFound version

/-- The answer of the history that refuses a script. -/
def refusing (direction : Direction) : Bool :=
  match direction with
  | .up => true
  | .down => false

/-- What is left to do once a script is not refused. -/
def carryOut (m : Migrator σ) (ctx : Context σ) (direction : Direction) (version script : String)
    (safely : Bool) : Action σ Unit := do
  let statements ← .ofExcept (Script.statements script)
  m.runScript ctx safely statements
  m.note ctx direction version

/-- The script is read after the history has answered, and refused before that. -/
theorem given_eq (m : Migrator σ) (ctx : Context σ) (direction : Direction)
    (version script : String) (safely : Bool) :
    m.given ctx direction version script safely =
      m.history.contains ctx version >>= fun known =>
        if known = refusing direction then throw (refusal direction version)
        else m.carryOut ctx direction version script safely := by
  cases direction with
  | up =>
    rw [given, upgrade]
    refine congrArg _ (funext fun known => ?_)
    cases known <;> rfl
  | down =>
    rw [given, downgrade]
    refine congrArg _ (funext fun known => ?_)
    cases known <;> rfl

section Given

variable {direction : Direction} {version script : String} {safely : Bool} {s t u : σ}

theorem given_of_error {e : Failure}
    (h : (m.history.contains ctx version).perform s = (.error e, t)) :
    (m.given ctx direction version script safely).perform s = (.error e, t) := by
  rw [given_eq, Action.perform_bind_error h]

theorem given_of_refusing
    (h : (m.history.contains ctx version).perform s = (.ok (refusing direction), t)) :
    (m.given ctx direction version script safely).perform s =
      (.error (refusal direction version), t) := by
  rw [given_eq, Action.perform_bind_ok h, if_pos rfl, Action.perform_throw]

theorem given_of_ok {known : Bool}
    (h : (m.history.contains ctx version).perform s = (.ok known, t))
    (hknown : known ≠ refusing direction) :
    (m.given ctx direction version script safely).perform s =
      (m.carryOut ctx direction version script safely).perform t := by
  rw [given_eq, Action.perform_bind_ok h, if_neg hknown]

/-- What the scanner makes of a script that is given as a text. -/
def scanned (script : String) : Script.Scanned :=
  Script.scan Script.maxStatementSize [Text.Utf8.encodeString script]

theorem statements_error_iff {e : Failure} :
    Script.statements script = .error e ↔ (scanned script).failure = some e := by
  rw [Script.statements, ← scanned, Script.Scanned.all]
  cases (scanned script).failure with
  | none => exact iff_of_false (by rintro ⟨⟩) (by rintro ⟨⟩)
  | some e' => rw [Except.error.injEq, Option.some.injEq]

theorem statements_of_none (h : (scanned script).failure = none) :
    Script.statements script = .ok (scanned script).statements := by
  rw [Script.statements, ← scanned, Script.Scanned.all, h]

/-- A fault anywhere in a script ends it before its first statement. -/
theorem carryOut_of_failure {e : Failure} (h : (scanned script).failure = some e) :
    (m.carryOut ctx direction version script safely).perform s = (.error e, s) := by
  rw [carryOut, statements_error_iff.mpr h, Action.perform_bind_error (Action.perform_ofExcept _ s)]

/-- A script that can be read is run and then noted. -/
theorem carryOut_of_none (h : (scanned script).failure = none) :
    (m.carryOut ctx direction version script safely).perform s =
      (m.runScript ctx safely (scanned script).statements >>=
        fun _ => m.note ctx direction version).perform s := by
  rw [carryOut, statements_of_none h]
  exact Action.perform_ofExcept_ok_bind ..

theorem carryOut_ok_iff (htransaction : m.history.transaction = c.transaction)
    (h : (scanned script).failure = none) :
    (m.carryOut ctx direction version script safely).perform s = (.ok (), t) ↔
      ∃ v, Completes m c ctx (scanned script).statements (safely || m.history.alwaysSafe) s v ∧
        (m.note ctx direction version).perform v = (.ok (), t) := by
  rw [carryOut, statements_of_none h]
  refine (attempt_ok_iff htransaction).trans ⟨?_, ?_⟩
  · rintro ⟨_, v, ⟨⟩, hrun, hnote⟩
    exact ⟨v, hrun, hnote⟩
  · rintro ⟨v, hrun, hnote⟩
    exact ⟨_, v, rfl, hrun, hnote⟩

end Given

/-- The version is in the wrong state for the script: recorded before it is applied, or not
recorded when it is reverted. -/
def Barred (l : Ledger σ) (direction : Direction) (version : String) (s : σ) : Prop :=
  match direction with
  | .up => version ∈ l.versions s
  | .down => version ∉ l.versions s

theorem eq_refusing_iff (direction : Direction) {known : Bool} {version : String} {s : σ}
    (h : known = true ↔ version ∈ l.versions s) :
    known = refusing direction ↔ Barred l direction version s := by
  cases direction with
  | up => exact h
  | down => exact (Bool.not_eq_true known).symm.to_iff.trans (not_congr h)

/-- What comes of a script that is given as a text, by what the history answered and how it
ended. -/
structure Given (m : Migrator σ) (c : Connection σ) (l : Ledger σ) (ctx : Context σ)
    (direction : Direction) (version script : String) (safely : Bool) (s : σ)
    (asked : Except Failure Bool × σ) (ended : Except Failure Unit × σ) : Prop where
  asks : l.view asked.2 = l.view s
  /-- Without an answer nothing is done. -/
  unanswered : ∀ e, asked.1 = .error e → ended = (.error e, asked.2)
  /-- A version in the wrong state is refused, and nothing is done. -/
  refused : ∀ known, asked.1 = .ok known → Barred l direction version s →
    ended = (.error (refusal direction version), asked.2)
  /-- For a fault anywhere in the script nothing is done. -/
  unreadable : ∀ known e, asked.1 = .ok known → ¬Barred l direction version s →
    (scanned script).failure = some e → ended = (.error e, asked.2)
  /-- Any other script succeeds exactly if all that is done for it does. -/
  succeeds : ∀ known, asked.1 = .ok known → ¬Barred l direction version s →
    (scanned script).failure = none → (ended.1 = .ok () ↔ ∃ v,
      Completes m c ctx (scanned script).statements (safely || m.history.alwaysSafe) asked.2 v ∧
        (m.note ctx direction version).perform v = (.ok (), ended.2))
  /-- After a success each statement was sent once, in order, and the version is noted. -/
  noted : ended.1 = .ok () → ¬Barred l direction version s ∧
    l.sent ended.2 = l.sent s ++ (scanned script).statements ∧
    l.Noted direction version s ended.2
  /-- A script that does not get to its end leaves the rows alone. -/
  stopped : ∀ known e t, asked.1 = .ok known → ¬Barred l direction version s →
    (scanned script).failure = none →
    (m.runScript ctx safely (scanned script).statements).perform asked.2 = (.error e, t) →
      ended = (.error e, t) ∧ l.rows t = l.rows s

section Ending

variable (hm : m.TakesScripts c l serves) (hctx : serves ctx)
include hm hctx

/-- What is left to do, from a state that shows what was there when the history was asked. -/
theorem carryOut_noted {direction : Direction} {version script : String} {safely : Bool}
    {s t u : σ} (hview : l.view t = l.view s) (hnone : (scanned script).failure = none)
    (h : (m.carryOut ctx direction version script safely).perform t = (.ok (), u)) :
    l.sent u = l.sent s ++ (scanned script).statements ∧ l.Noted direction version s u := by
  obtain ⟨v, hrun, hnote⟩ := (carryOut_ok_iff hm.transaction hnone).mp h
  obtain ⟨hrows, hsent⟩ := hrun.sends hm hctx
  obtain ⟨hsent', hnoted⟩ := hm.note ctx hctx direction version v u hnote
  obtain ⟨hrows₀, hsent₀⟩ := Prod.mk.inj hview
  exact ⟨by rw [hsent', hsent, hsent₀], hnoted.of_rows (hrows.trans hrows₀)⟩

theorem given_all (direction : Direction) (version script : String) (safely : Bool) (s : σ) :
    Given m c l ctx direction version script safely s
      ((m.history.contains ctx version).perform s)
      ((m.given ctx direction version script safely).perform s) := by
  obtain ⟨hview, hanswer⟩ := hm.knows ctx hctx version s
  rcases hasked : (m.history.contains ctx version).perform s with ⟨e | known, t⟩
  · rw [hasked] at hview
    rw [given_of_error hasked]
    refine ⟨hview, ?_, nofun, nofun, nofun, nofun, nofun⟩
    rintro _ ⟨⟩
    rfl
  rw [hasked] at hview hanswer
  have hbarred := eq_refusing_iff direction (hanswer known rfl)
  by_cases hknown : known = refusing direction
  · -- refused before the script is looked at
    have hwrong := hbarred.mp hknown
    rw [hknown] at hasked
    rw [given_of_refusing hasked]
    exact ⟨hview, nofun, fun _ _ _ => rfl, fun _ _ _ h => absurd hwrong h,
      fun _ _ h => absurd hwrong h, nofun, fun _ _ _ _ h => absurd hwrong h⟩
  have hright : ¬Barred l direction version s := fun h => hknown (hbarred.mpr h)
  rw [given_of_ok hasked hknown]
  cases hscan : (scanned script).failure with
  | some e =>
    rw [carryOut_of_failure hscan]
    have hread : (scanned script).failure ≠ none := by rw [hscan]; exact nofun
    refine ⟨hview, nofun, fun _ _ h => absurd h hright, fun _ e' _ _ he => ?_,
      fun _ _ _ h => absurd h hread, nofun, fun _ _ _ _ _ h => absurd h hread⟩
    cases hscan.symm.trans he
    rfl
  | none =>
    refine ⟨hview, nofun, fun _ _ h => absurd h hright, fun _ e' _ _ he => ?_,
      fun _ _ _ _ => ?_, fun hok => ?_, fun _ e u _ _ _ hrun => ?_⟩
    · cases hscan.symm.trans he
    · rw [← carryOut_ok_iff hm.transaction hscan]
      exact ⟨fun hok => Prod.ext hok rfl, fun hok => congrArg Prod.fst hok⟩
    · exact ⟨hright, carryOut_noted hm hctx hview hscan (Prod.ext hok rfl)⟩
    · have hrows := (runScript_leaves_rows hm hctx safely _).of_perform hrun
      exact ⟨by rw [carryOut_of_none hscan, Action.perform_bind_error hrun],
        hrows.trans (Prod.mk.inj hview).1⟩

end Ending

/-- **A script that is given as a text**, in either direction, over any history and wherever it
fails, is refused, or not begun, or stopped, or it succeeds, each exactly when it should; and to
apply a version and then to revert it leaves the rows that were there before. -/
theorem given_script (hm : m.TakesScripts c l serves) :
    (∀ ctx, serves ctx → ∀ direction version script safely s,
      Given m c l ctx direction version script safely s
        ((m.history.contains ctx version).perform s)
        ((m.given ctx direction version script safely).perform s)) ∧
    ∀ ctx ctx', serves ctx → serves ctx' → ∀ version up down safely safely' s t u,
      (m.upgrade ctx version up safely).perform s = (.ok (), t) →
      (m.downgrade ctx' version down safely').perform t = (.ok (), u) →
        l.rows u = l.rows s := by
  refine ⟨fun ctx hctx direction version script safely s =>
    given_all hm hctx direction version script safely s, ?_⟩
  intro ctx ctx' hctx hctx' version up down safely safely' s t u hup hdown
  have hfirst := given_all hm hctx .up version up safely s
  have hsecond := given_all hm hctx' .down version down safely' t
  rw [show (m.given ctx .up version up safely).perform s = _ from hup] at hfirst
  rw [show (m.given ctx' .down version down safely').perform t = _ from hdown] at hsecond
  obtain ⟨hnew, -, time, hadded⟩ := hfirst.noted rfl
  obtain ⟨-, -, hleft⟩ := hsecond.noted rfl
  have hold : ∀ a ∈ l.rows s, a.version ≠ version := fun a ha heq =>
    hnew (Multiset.mem_map.mpr ⟨a, ha, heq⟩)
  calc l.rows u = (l.rows t).filter (·.version ≠ version) := hleft
    _ = (l.rows s).filter (·.version ≠ version) := by
      rw [hadded, Multiset.filter_cons_of_neg _ (by simp)]
    _ = l.rows s := Multiset.filter_eq_self.mpr hold

/-- A migrator that records versions takes scripts as texts over the connection of its history. -/
theorem TakesScripts.of_records (hm : m.Records l serves)
    (htransaction : m.history.transaction = c.transaction)
    (hopened : ∀ ctx id, serves ctx → serves (c.opened ctx id))
    (hbegin : ∀ token, (c.backend.begin token).Keeps l.view)
    (hcommit : ∀ token id, (c.backend.transaction token id).commit.Keeps l.view)
    (hrollback : ∀ token id, (c.backend.transaction token id).rollback.Keeps l.view) :
    m.TakesScripts c l serves where
  knows := hm.knows
  journal := hm.runs.journal
  exec := hm.runs.history.exec
  transaction := htransaction
  opened := hopened
  begin _ _ := hbegin _
  commit _ _ _ := hcommit _ _
  rollback _ _ _ := hrollback _ _
  note ctx hctx direction version s t h := by
    cases direction with
    | up =>
      have hinsert := hm.runs.history.insert ctx hctx version s
      rw [Action.Ends, show (m.history.insert ctx version).perform s = _ from h] at hinsert
      exact hinsert
    | down =>
      have hremove := hm.tracks.remove ctx hctx version s
      rw [Action.Ends, show (m.history.remove ctx version).perform s = _ from h] at hremove
      exact hremove

end Migrator

/-! ### On a bench -/

theorem Bench.migrator_takesScripts :
    (migrator telling).TakesScripts telling (Memory.ledger memoryPart heardPart)
      telling.Serves := by
  have hkeeps : (Recorder.backend .postgres recorderPart).Keeps
      (Memory.ledger memoryPart heardPart).view := Recorder.backend_keeps fun _ _ => rfl
  exact .of_records migrator_records rfl (fun ctx id _ => telling.serves_opened ctx id)
    hkeeps.begin hkeeps.commit hkeeps.rollback

/-- On a bench, a block that is left open keeps the statement in front of it from being sent, and a
migration is applied and reverted again. -/
theorem Migrator.given_script_bench :
    let m := Bench.migrator Bench.telling
    let ctx := Context.ofToken Token.never
    let applied := ((m.upgrade ctx "210328_221600_a" "A; B;" true).perform (.holding ["b"])).2
    let reverted := ((m.downgrade ctx "210328_221600_a" "C" false).perform applied).2
    (m.upgrade ctx "210328_221600_a" "A; $$" true).perform (.holding ["b"]) =
      (.error .unclosedBlock, .holding ["b"]) ∧
    applied.heard = ["A", "B"] ∧
    applied.memory.records.map (·.version) = ["b", "210328_221600_a"] ∧
    (reverted.memory.records : Multiset Applied) = (Bench.holding ["b"]).memory.records := by
  intro m ctx applied reverted
  have hctx : Bench.telling.Serves ctx := fun _ h => nomatch h
  obtain ⟨hgiven, hundone⟩ := given_script Bench.migrator_takesScripts
  have hopen : (scanned "A; $$").failure = some .unclosedBlock := by
    rw [← statements_error_iff, Script.statements, Script.scan_all]
    rfl
  have hright : "210328_221600_a" ∉ (Memory.ledger Bench.memoryPart Bench.heardPart).versions
      (.holding ["b"]) := by decide +kernel
  have hup : (m.upgrade ctx "210328_221600_a" "A; B;" true).perform (.holding ["b"]) =
      (.ok (), applied) := Prod.ext (Failure.ok_of_toOption (by decide +kernel)) rfl
  have hdown : (m.downgrade ctx "210328_221600_a" "C" false).perform applied =
      (.ok (), reverted) := Prod.ext (Failure.ok_of_toOption (by decide +kernel)) rfl
  exact ⟨(hgiven ctx hctx .up "210328_221600_a" "A; $$" true (.holding ["b"])).unreadable false
      .unclosedBlock rfl hright hopen, by decide +kernel, by decide +kernel,
    hundone ctx ctx hctx hctx _ _ _ _ _ _ _ _ hup hdown⟩

end SchemaMigration
