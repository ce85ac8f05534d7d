import SchemaMigration.CommandLine.Run
import SchemaMigration.Proofs.HistoryLedger
import SchemaMigration.Proofs.StatementTemplates
import SchemaMigration.Proofs.TransactionDiscipline
/-! # The statements that a history sends

What the calls of a history come to on a connection that is watched: the texts of its dialect in
their order, or the first of them and then a failure (`Dialect.upkeep_speaks`).  The texts are
templates, and the names in them were checked when the dialect was chosen.  So nothing but letters,
digits and underscores ever stands in a hole, and a name that has anything else is refused before
anything is sent (`names_stay_in_holes`). -/
namespace SchemaMigration

variable {σ α β : Type}

/-! ### What an action says -/

/-- The text of a call that is a statement. -/
def Call.text? : Call → Option String
  | .statement _ text _ => some text
  | _ => none

namespace Watched

/-- The texts of the statements that were sent. -/
def said (w : Watched σ) : List String := w.calls.filterMap Call.text?

/-- The action sends texts in their order, and all of them if it succeeds. -/
def Speaks (texts : List String) (a : Action (Watched σ) α) : Prop :=
  ∀ w, a.Ends w fun r w' =>
    ∃ sent, w'.said = w.said ++ sent ∧ sent <+: texts ∧ ∀ x, r = .ok x → sent = texts

namespace Speaks

variable {texts : List String} {a : Action (Watched σ) α}

/-- What has succeeded has said everything. -/
theorem said_eq (h : Speaks texts a) {w : Watched σ} (hok : (a.perform w).1.isOk = true) :
    (a.perform w).2.said = w.said ++ texts := by
  obtain ⟨sent, hsaid, -, hall⟩ := h w
  cases hr : (a.perform w).1 with
  | error e =>
    rw [hr] at hok
    cases hok
  | ok x => rw [hsaid, hall x hr]

/-- What leaves the texts alone says nothing. -/
theorem silent (h : a.Keeps said) : Speaks [] a := by
  intro w
  refine ⟨[], ?_, List.nil_prefix, fun _ _ => rfl⟩
  rw [h w, List.append_nil]

/-- One action after another says what both say. -/
theorem bind {more : List String} {f : α → Action (Watched σ) β} (ha : Speaks texts a)
    (hf : ∀ x, Speaks more (f x)) : Speaks (texts ++ more) (a >>= f) := by
  intro w
  refine .bind (ha w) ?_ ?_
  · rintro e w' ⟨sent, hsaid, hsent, -⟩
    exact ⟨sent, hsaid, hsent.trans (List.prefix_append _ _), nofun⟩
  · rintro x w' ⟨sent, hsaid, -, hall⟩
    obtain rfl := hall x rfl
    refine (hf x w').mono fun r w'' h => ?_
    -- the first part has said all of its texts, so what the second says goes on from there
    obtain ⟨sent', hsaid', hsent', hall'⟩ := h
    refine ⟨sent ++ sent', ?_, (List.prefix_append_right_inj sent).mpr hsent', fun y hy => ?_⟩
    · rw [hsaid', hsaid, List.append_assoc]
    · rw [hall' y hy]

theorem mapFailure (g : Failure → Failure) (ha : Speaks texts a) :
    Speaks texts (a.mapFailure g) := by
  intro w
  obtain ⟨sent, hsaid, hsent, hall⟩ := ha w
  refine ⟨sent, hsaid, hsent, fun x hx => ?_⟩
  rw [Action.perform_mapFailure] at hx
  cases hr : (a.perform w).1 with
  | error e =>
    rw [hr] at hx
    cases hx
  | ok y => exact hall y hr

/-- What an action answers after it has spoken does not matter. -/
theorem bind_silent {f : α → Action (Watched σ) β} (ha : Speaks texts a)
    (hf : ∀ x, (f x).Keeps said) : Speaks texts (a >>= f) := by
  rw [← List.append_nil texts]
  exact ha.bind fun x => silent (hf x)

theorem forM {γ : Type} {f : γ → Action (Watched σ) PUnit} {text : γ → String}
    (hf : ∀ x, Speaks [text x] (f x)) (xs : List γ) : Speaks (xs.map text) (xs.forM f) := by
  induction xs with
  | nil => exact silent (.pure _)
  | cons x xs ih =>
    show Speaks (text x :: xs.map text) (f x >>= fun _ => xs.forM f)
    exact (hf x).bind fun _ => ih

/-- An action that looks at a token first. -/
theorem checked {b : Action (Watched σ) α} {raised : Watched σ → Bool} (ha : Speaks texts a)
    (hb : ∀ w, b.perform w = if raised w then (.error .cancelled, w) else a.perform w) :
    Speaks texts b := by
  intro w
  rw [Action.Ends, hb]
  split
  · refine ⟨[], (List.append_nil _).symm, List.nil_prefix, ?_⟩
    intro x hx
    cases hx
  · exact ha w

/-- What wraps actions says what they say. -/
theorem of_wraps {bodies : Action (Watched σ) Unit → Prop} {a : Action (Watched σ) Unit}
    (ha : a.Wraps said bodies) (hbodies : ∀ b, bodies b → Speaks texts b) : Speaks texts a := by
  intro w
  refine (ha w).mono fun r w' h => ?_
  rcases h with ⟨e, rfl, hw'⟩ | ⟨b, u, x, v, hb, hu, hrun, hv, hr⟩
  · exact ⟨[], by rw [hw', List.append_nil], List.nil_prefix, nofun⟩
  · obtain ⟨sent, hsaid, hsent, hall⟩ := hbodies b hb u
    rw [hrun] at hsaid hall
    refine ⟨sent, by rw [hv, hsaid, hu], hsent, fun y hy => ?_⟩
    exact hall () (hr hy)

end Speaks

theorem note_speaks (id : Option Nat) (text : String) (args : List Value)
    (a : List Call → Action σ α) : Speaks [text] (note (.statement id text args) a) := by
  intro w
  refine ⟨[text], ?_, List.prefix_refl _, fun _ _ => rfl⟩
  rw [perform_note, said, List.filterMap_append]
  rfl

section Connection

variable {c : Connection σ} {ctx : Context (Watched σ)} (hctx : (connection c).Serves ctx)

section
include hctx

theorem query_speaks (text : String) (args : List Value) :
    Speaks [text] ((connection c).query ctx text args) := by
  refine .checked ?_ ((connection c).perform_query ctx text args)
  cases htx : ctx.transaction with
  | none => exact note_speaks none text args _
  | some t =>
    obtain ⟨token, id, rfl⟩ := hctx t htx
    exact note_speaks (some id) text args _

theorem exec_speaks (text : String) (args : List Value) :
    Speaks [text] ((connection c).exec ctx text args) := by
  refine .checked ?_ ((connection c).perform_exec ctx text args)
  cases htx : ctx.transaction with
  | none => exact note_speaks none text args _
  | some t =>
    obtain ⟨token, id, rfl⟩ := hctx t htx
    exact note_speaks (some id) text args _

end

/-- A transaction says what its body says. -/
theorem transaction_speaks {texts : List String} {body : Context (Watched σ) → Action (Watched σ) Unit}
    (hbody : ∀ inner, (connection c).Serves inner → Speaks texts (body inner)) :
    Speaks texts ((connection c).transaction ctx body) := by
  have hkeeps (call : Call) (hcall : call.text? = none) {γ : Type} (a : List Call → Action σ γ) :
      (note call a).Keeps said := by
    intro w
    rw [perform_note, said, List.filterMap_append, List.filterMap_cons_none hcall]
    exact List.append_nil _
  refine .of_wraps ((connection c).transaction_wraps ctx body (hkeeps .begin rfl _)
    (fun id => hkeeps (.commit id) rfl _) (fun id => hkeeps (.rollback id) rfl _)) ?_
  rintro _ ⟨id, rfl⟩
  exact hbody _ ((connection c).serves_opened ctx id)

end Connection

end Watched

/-! ### What a history says -/

namespace Dialect

open Watched (Speaks)

variable {c : Connection σ} {ctx : Context (Watched σ)} (d : Dialect)

section
variable (hctx : (Watched.connection c).Serves ctx)
include hctx

theorem exec_speaks (s : Statement) :
    Speaks [s.text] (d.exec (Watched.connection c) ctx s) :=
  .mapFailure _ ((Watched.exec_speaks hctx s.text s.args).bind_silent fun _ => .pure _)

theorem scalar_speaks (s : Statement) :
    Speaks [s.text] (d.scalar (Watched.connection c) ctx s) :=
  .mapFailure _ ((Watched.query_speaks hctx s.text s.args).bind_silent fun _ => .ofExcept _)

theorem ask_speaks (s : Statement) (v : Verdict) :
    Speaks [s.text] (d.ask (Watched.connection c) ctx s v) :=
  (d.scalar_speaks hctx s).bind_silent fun _ => .ofExcept _

theorem applied_speaks (limit : Nat) :
    Speaks [d.list limit] (d.applied (Watched.connection c) ctx limit) :=
  (Speaks.mapFailure _ (Watched.query_speaks hctx _ [])).bind_silent fun _ => .ofExcept _

theorem execAll_speaks (texts : List String) :
    Speaks texts (d.execAll (Watched.connection c) ctx texts) := by
  have hall : Speaks (texts.map id) (d.execAll (Watched.connection c) ctx texts) :=
    .forM (fun text => d.exec_speaks hctx ⟨text, []⟩) texts
  rwa [List.map_id] at hall

theorem change_speaks (change : Change) :
    Speaks [change.text] (d.change (Watched.connection c) ctx change) := by
  cases change with
  | plain s => exact d.exec_speaks hctx s
  | committed s =>
    have hbody (inner : Context (Watched σ)) (hinner : (Watched.connection c).Serves inner) :
        Speaks [s.text] ((Watched.connection c).exec inner s.text s.args >>= fun _ => pure ()) :=
      (Watched.exec_speaks hinner s.text s.args).bind_silent fun _ => .pure _
    rw [change]
    exact Watched.transaction_speaks hbody

/-- **What is asked of a history** comes to the texts of its dialect, whatever the time is when it is
asked. -/
theorem upkeep_speaks (clock : Action (Watched σ) Int) (hclock : clock.Keeps Watched.said)
    (version : String) (limit : Nat) (u : Upkeep) {texts : List String}
    (htexts : ∀ time, d.texts version time limit u = texts) :
    Speaks texts ((d.history (Watched.connection c) clock).upkeep ctx version limit u) := by
  have htimed (changes : Int → List Change) (h : ∀ time, (changes time).map Change.text = texts) :
      Speaks texts (clock >>= fun time =>
        (changes time).forM (d.change (Watched.connection c) ctx)) := by
    refine (Speaks.silent hclock).bind fun time => ?_
    rw [← h time]
    exact .forM (d.change_speaks hctx) _
  -- nothing is said after the answer
  have hasked {γ : Type} {a : Action (Watched σ) γ} {text : String} (ha : Speaks [text] a)
      (h : [text] = texts) : Speaks texts (a >>= fun _ => pure ()) := by
    rw [← h]
    exact ha.bind_silent fun _ => .pure _
  cases u with
  | list => exact hasked (d.applied_speaks hctx limit) (htexts 0)
  | isCreated => exact hasked (d.ask_speaks hctx d.probe d.probeVerdict) (htexts 0)
  | create =>
    obtain rfl : d.create = texts := htexts 0
    exact d.execAll_speaks hctx d.create
  | drop =>
    obtain rfl : d.drop = texts := htexts 0
    exact d.execAll_speaks hctx d.drop
  | insert => exact htimed (d.insert version) htexts
  | remove => exact htimed (d.remove version) htexts
  | count =>
    have hcount : Speaks [d.count] ((d.history (Watched.connection c) clock).count ctx) :=
      (d.scalar_speaks hctx ⟨d.count, []⟩).bind_silent fun _ => .bind (.ofExcept _) fun _ => .pure _
    exact hasked hcount (htexts 0)
  | contains => exact hasked (d.ask_speaks hctx (d.contains version) d.containsVerdict) (htexts 0)

end

end Dialect

/-! ### Names that were checked -/

/-- Identifiers and a number stand in the holes, so their characters are plain. -/
theorem Names.value_plain {n : Names} (h : ∀ name ∈ n.all, Identifier.IsIdentifier name)
    (limit : Nat) (hole : Hole) : ∀ c ∈ (n.value limit hole).toList, Identifier.isPlain c = true := by
  intro c hc
  cases hole with
  | schema => exact (h n.schema (by simp [all])).1 c hc
  | table => exact (h n.table (by simp [all])).1 c hc
  | cluster => exact (h n.cluster (by simp [all])).1 c hc
  | limit =>
    have hmem : c ∈ Nat.toDigits 10 limit := by
      rw [← Nat.toList_repr]
      exact hc
    have hdigit := Nat.isDigit_of_mem_toDigits (by decide) (by decide) hmem
    rw [Identifier.isPlain, Char.isAlphanum, hdigit, Bool.or_true, Bool.true_or]

/-- A command whose dialect is refused ends with that failure as soon as it is connected. -/
theorem CommandLine.Surroundings.perform_of_refused (w : CommandLine.Surroundings σ)
    {settings : CommandLine.Settings} (task : CommandLine.Task) {c : Connection σ} {s t : σ}
    {e : Failure} (hdsn : settings.dsn.isEmpty = false)
    (hconnect : (w.connect settings.dsn settings.attempts).perform s = (.ok c, t))
    (hchoose : Dialect.choose c.driver c.dsn settings.options = .error e) :
    (w.perform settings (.migrate task)).perform s = (.error e, t) := by
  have hmigrator : w.migrator settings c = .error e := by
    rw [migrator, hchoose]
    rfl
  rw [perform, if_neg (by rw [hdsn]; exact Bool.false_ne_true)]
  show ((w.connect settings.dsn settings.attempts) >>= _).perform s = _
  rw [Action.perform_bind_ok hconnect, hmigrator]
  rfl

/-- **Names stay in their holes.**  The choice of a dialect, for every data source name and all
options of a history:

* The schema of a table is what stands before the first point of its name.
* The choice is refused for a name exactly if one of the names is no identifier, unless ClickHouse
  finds a wrong port first.  Nothing else is refused, and what is refused is the end of a command:
  nothing is sent after the connection was made.
* For every product, every mode and everything that is asked of a history there are templates which
  are filled, for all options that are accepted, with nothing but letters, digits and underscores.
  The filled templates are what the history sends, whatever the version, in their order and up to the
  first that fails. -/
theorem names_stay_in_holes :
    (∀ name, Identifier.Parts name (Identifier.splitQualified name)) ∧
    (∀ (driver : Driver) (dsn : Dsn) (o : Dialect.Options),
      ((∃ name why, Dialect.choose driver dsn o = .error (.invalidIdentifier name why)) ↔
        Dialect.Reads driver dsn ∧
          ∃ name ∈ (Names.of driver dsn o).all, ¬Identifier.IsIdentifier name) ∧
      ∀ e, Dialect.choose driver dsn o = .error e →
        ((∃ name ∈ (Names.of driver dsn o).all, ¬Identifier.IsIdentifier name ∧
            ∃ why, e = .invalidIdentifier name why) ∨
          driver = .clickHouse ∧ ClickHouse.Settings.ofDsn dsn = .error e ∧
            ∃ host, e = .invalidDsn (.port host)) ∧
        ∀ (σ : Type) (w : CommandLine.Surroundings σ) (settings : CommandLine.Settings)
          (task : CommandLine.Task) (c : Connection σ) (s t : σ),
          settings.dsn.isEmpty = false →
          (w.connect settings.dsn settings.attempts).perform s = (.ok c, t) →
          c.driver = driver → c.dsn = dsn → settings.options = o →
          (w.perform settings (.migrate task)).perform s = (.error e, t)) ∧
    ∀ (driver : Driver) (mode : Mode) (u : Upkeep), ∃ templates : List Template,
      ∀ (dsn : Dsn) (o : Dialect.Options) (d : Dialect) (limit : Nat),
        Dialect.choose driver dsn o = .ok d →
        (Names.of driver dsn o).mode o.replicated limit = mode →
        (∀ hole, ∀ c ∈ ((Names.of driver dsn o).value limit hole).toList,
          Identifier.isPlain c = true) ∧
        ∀ (σ : Type) (c : Connection σ) (clock : Action σ Int) (ctx : Context (Watched σ))
          (version : String), (Watched.connection c).Serves ctx →
          Watched.Speaks (templates.map (Template.fill ((Names.of driver dsn o).value limit)))
            ((d.history (Watched.connection c) (Watched.statePart.lift clock)).upkeep ctx version
              limit u) := by
  refine ⟨Identifier.splitQualified_parts, fun driver dsn o => ?_, ?_⟩
  · refine ⟨Dialect.choose_refused_iff driver dsn o, fun e he => ?_⟩
    refine ⟨Dialect.choose_error he, ?_⟩
    rintro σ w settings task c s t hdsn hconnect rfl rfl rfl
    exact w.perform_of_refused task hdsn hconnect he
  intro driver mode u
  obtain ⟨templates, htemplates⟩ := Dialect.named_shaped driver mode u
  refine ⟨templates, fun dsn o d limit hchoose hmode => ?_⟩
  obtain ⟨hall, rfl⟩ := Dialect.choose_ok hchoose
  refine ⟨Names.value_plain hall limit, fun σ c clock ctx version hctx => ?_⟩
  refine Dialect.upkeep_speaks _ hctx _ (.lift (fun _ _ => rfl) clock) version limit u fun time => ?_
  exact htemplates ⟨Names.of driver dsn o, o.replicated, limit, version, time⟩ hmode

/-- A name with a semicolon is refused.  Two tables on clusters are dropped with the same templates. -/
theorem names_stay_in_holes_clustered :
    let dsn : Dsn := ⟨.clickHouse, "localhost", [], "shop", "", "", [], ""⟩
    let first : Dialect.Options := ⟨"migration", "main", false⟩
    let second : Dialect.Options := ⟨"stock.changes", "c_1", false⟩
    (∃ name why, Dialect.choose .clickHouse dsn ⟨"shop.x;y", "", false⟩ =
      .error (.invalidIdentifier name why)) ∧
    ∃ templates : List Template,
      templates.map (Template.fill ((Names.of .clickHouse dsn first).value 0)) =
        ["DROP TABLE shop.d_migration ON CLUSTER main NO DELAY",
          "DROP TABLE shop.migration ON CLUSTER main NO DELAY"] ∧
      templates.map (Template.fill ((Names.of .clickHouse dsn second).value 0)) =
        ["DROP TABLE stock.d_changes ON CLUSTER c_1 NO DELAY",
          "DROP TABLE stock.changes ON CLUSTER c_1 NO DELAY"] := by
  intro dsn first second
  have hreads : Dialect.Reads .clickHouse dsn := by
    intro _
    have hok : (ClickHouse.Settings.ofDsn dsn).isOk = true := by decide +kernel
    cases h : ClickHouse.Settings.ofDsn dsn with
    | ok settings => exact ⟨settings, rfl⟩
    | error e =>
      rw [h] at hok
      cases hok
  obtain ⟨-, hrefused, hsent⟩ := names_stay_in_holes
  constructor
  · refine (hrefused .clickHouse dsn ⟨"shop.x;y", "", false⟩).1.mpr ⟨hreads, "x;y", by decide, ?_⟩
    intro h
    exact absurd (h.1 ';' (by decide)) (by decide)
  obtain ⟨templates, htemplates⟩ := hsent .clickHouse ⟨true, false, false⟩ .drop
  let c := Recorder.connection .clickHouse
  let ctx : Context (Watched (Recorder × Bool)) := .ofToken .never
  have hctx : (Watched.connection c).Serves ctx := fun _ h => nomatch h
  let drop (o : Dialect.Options) : Action (Watched (Recorder × Bool)) Unit :=
    ((Dialect.named .clickHouse (Names.of .clickHouse dsn o) o.replicated).history
      (Watched.connection c) (Watched.statePart.lift (pure 0))).upkeep ctx "" 0 .drop
  let start : Watched (Recorder × Bool) := ⟨(.empty, false), []⟩
  -- what a history sends that drops its table are the templates with its names in them
  have hdrop (o : Dialect.Options)
      (hall : ∀ name ∈ (Names.of .clickHouse dsn o).all, Identifier.IsIdentifier name)
      (hmode : (Names.of .clickHouse dsn o).mode o.replicated 0 = ⟨true, false, false⟩)
      (hok : ((drop o).perform start).1.isOk = true) :
      ((drop o).perform start).2.said =
        templates.map (Template.fill ((Names.of .clickHouse dsn o).value 0)) := by
    obtain ⟨-, hspeaks⟩ := htemplates dsn o _ 0 (Dialect.choose_of_identifiers hreads hall) hmode
    exact (hspeaks _ c (pure 0) ctx "" hctx).said_eq hok
  have hall (o : Dialect.Options) (h : o = first ∨ o = second) :
      ∀ name ∈ (Names.of .clickHouse dsn o).all, Identifier.IsIdentifier name := by
    rcases h with rfl | rfl <;> decide
  refine ⟨templates, ?_, ?_⟩
  · rw [← hdrop first (hall first (.inl rfl)) rfl (by decide +kernel)]
    decide +kernel
  · rw [← hdrop second (hall second (.inr rfl)) rfl (by decide +kernel)]
    decide +kernel

end SchemaMigration
