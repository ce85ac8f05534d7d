import Mathlib.Data.Multiset.MapFold
import SchemaMigration.History.Memory
import SchemaMigration.Migrator
import SchemaMigration.Proofs.ActionFrames
import SchemaMigration.Recorder
/-! # Histories and their ledgers

What the migrator relies on when it uses a history.  A *ledger* is what can be seen of a history
from outside: its rows, and the statements of scripts that it has been sent.  A history *writes
to* a ledger when a listing shows the rows, an insertion adds one row or changes nothing, a
statement is sent at most once and leaves the rows alone, and a transaction runs its body at
most once (`History.WritesTo`).  Nothing is said of when any of these fail, or why.

A history in memory writes to such a ledger over every backend that does not touch its records
(`Memory.history_writesTo`). -/
namespace SchemaMigration

variable {σ α : Type}

/-- The rows of a history, and the statements of scripts that were sent. -/
structure Ledger (σ : Type) where
  rows : σ → Multiset Applied
  sent : σ → List String

/-- Rows and statements together. -/
def Ledger.view (l : Ledger σ) (s : σ) : Multiset Applied × List String := (l.rows s, l.sent s)

/-- The versions of the rows. -/
def Ledger.versions (l : Ledger σ) (s : σ) : Multiset String := (l.rows s).map (·.version)

/-- What the insertion of a version comes to: one more row, or nothing. -/
def Ledger.Inserts (l : Ledger σ) (version : String) (s : σ) (r : Except Failure Unit) (t : σ) :
    Prop :=
  l.sent t = l.sent s ∧ match r with
    | .ok _ => ∃ time, l.rows t = ⟨version, time⟩ ::ₘ l.rows s
    | .error _ => l.rows t = l.rows s

/-- What a statement comes to: it was sent, or it failed before or after it was sent.  The rows
stay as they are. -/
def Ledger.Sends (l : Ledger σ) (text : String) (s : σ) (r : Except Failure α) (t : σ) : Prop :=
  l.rows t = l.rows s ∧ match r with
    | .ok _ => l.sent t = l.sent s ++ [text]
    | .error _ => l.sent t = l.sent s ∨ l.sent t = l.sent s ++ [text]

/-- `a` runs an action of `bodies` at most once, keeps the view otherwise, and does not succeed
unless the body did. -/
def Action.Wraps {β : Type} (view : σ → β) (bodies : Action σ Unit → Prop) (a : Action σ Unit) :
    Prop :=
  ∀ s, a.Ends s fun r t =>
    (∃ e, r = .error e ∧ view t = view s) ∨
      ∃ body u x v, bodies body ∧ view u = view s ∧ body.perform u = (x, v) ∧ view t = view v ∧
        (r = .ok () → x = .ok ())

theorem Action.Wraps.mono {β : Type} {view : σ → β} {p q : Action σ Unit → Prop}
    {a : Action σ Unit} (h : a.Wraps view p) (hpq : ∀ body, p body → q body) :
    a.Wraps view q := by
  refine fun s => (h s).mono fun r t => Or.imp_right ?_
  rintro ⟨body, u, x, v, hbody, hrest⟩
  exact ⟨body, u, x, v, hpq body hbody, hrest⟩

/-- What wraps actions that keep the view keeps it too. -/
theorem Action.Wraps.keeps {β : Type} {view : σ → β} {bodies : Action σ Unit → Prop}
    {a : Action σ Unit} (h : a.Wraps view bodies) (hbodies : ∀ b, bodies b → b.Keeps view) :
    a.Keeps view := by
  intro s
  rcases h s with ⟨_, _, hs⟩ | ⟨b, u, _, _, hb, hu, hperform, hv, _⟩
  · exact hs
  · exact hv.trans (((hbodies b hb).of_perform hperform).trans hu)

/-- What a history does to its ledger when it is called in a context that it serves.  The
contexts that its transactions hand out are among these. -/
structure History.WritesTo (h : History σ) (l : Ledger σ) (serves : Context σ → Prop) : Prop where
  isCreated : ∀ ctx, serves ctx → (h.isCreated ctx).Keeps l.view
  create : ∀ ctx, serves ctx → (h.create ctx).Keeps l.view
  list : ∀ ctx, serves ctx → ∀ s, (h.list ctx 0).Ends s fun r t => l.view t = l.view s ∧
    ∀ applied : List Applied, r = .ok applied → (applied : Multiset Applied) = l.rows s
  insert : ∀ ctx, serves ctx → ∀ version s,
    (h.insert ctx version).Ends s (l.Inserts version s)
  exec : ∀ ctx, serves ctx → ∀ text s, (h.exec ctx text []).Ends s (l.Sends text s)
  transaction : ∀ ctx, serves ctx → ∀ body,
    (h.transaction ctx body).Wraps l.view fun b => ∃ inner, serves inner ∧ b = body inner

/-! ### Transactions of a connection -/

section Transaction

variable {β : Type} {view : σ → β}

theorem Connection.settle_keeps {t : Transaction σ} (hcommit : t.commit.Keeps view)
    (hrollback : t.rollback.Keeps view) (r : Except Failure Unit) :
    (settle t r).Keeps view := by
  cases r with
  | error f => exact hrollback.outcome.bind fun a => by cases a <;> exact .throw _
  | ok x =>
    refine hcommit.outcome.bind fun a => ?_
    cases a with
    | ok y => exact .pure _
    | error f => exact hrollback.outcome.bind fun _ => .throw _

theorem Connection.settle_of_error {t : Transaction σ} {e : Failure} {s : σ} :
    ((settle t (.error e)).perform s).1 ≠ .ok () := by
  rw [settle, Action.perform_outcome_bind]
  split <;> exact nofun

/-- A transaction of a connection runs its body at most once, and keeps a view if its begin and
its end do. -/
theorem Connection.transaction_wraps (c : Connection σ) (ctx : Context σ)
    (body : Context σ → Action σ Unit) (hbegin : (c.backend.begin ctx.token).Keeps view)
    (hcommit : ∀ id, (c.backend.transaction ctx.token id).commit.Keeps view)
    (hrollback : ∀ id, (c.backend.transaction ctx.token id).rollback.Keeps view) :
    (c.transaction ctx body).Wraps view fun b => ∃ id, b = body (c.opened ctx id) := by
  intro s
  rw [Connection.transaction]
  cases ctx.transaction with
  | some t => exact .inl ⟨_, rfl, rfl⟩
  | none =>
    refine .keeps_bind (.check _) (fun e t ht => .inl ⟨e, rfl, ht⟩) fun _ t ht => ?_
    refine .keeps_bind hbegin (fun e u hu => .inl ⟨e, rfl, hu.trans ht⟩) fun id u hu => ?_
    -- from here on the body has run, and the end keeps what the body left
    refine .outcome_bind (R := fun r v => (body _).perform u = (r, v)) rfl fun x v hv => .inr ?_
    refine ⟨_, u, x, v, ⟨id, rfl⟩, hu.trans ht, hv, settle_keeps (hcommit id) (hrollback id) x v, ?_⟩
    intro hr
    cases x with
    | ok => rfl
    | error e => exact absurd hr settle_of_error

end Transaction

/-! ### A history in memory -/

section Memory

variable {place : Part σ Memory} {heard : Part σ (List String)} {b : Backend σ}
variable {c : Connection σ}

/-- The ledger of a history in memory whose connection tells of every statement. -/
def Memory.ledger (place : Part σ Memory) (heard : Part σ (List String)) : Ledger σ where
  rows s := (place.get s).records
  sent := heard.get

theorem Memory.checkWritable_ends (broken : List String) (version : String) (s : σ) :
    (checkWritable broken version).Ends s fun _ t => t = s := by
  rw [checkWritable]
  split <;> rfl

/-- A backend leaves a view alone in everything that the scripts of migrations ask of it. -/
structure Backend.Keeps {β : Type} (view : σ → β) (b : Backend σ) : Prop where
  exec : ∀ token text args, (b.exec token text args).Keeps view
  begin : ∀ token, (b.begin token).Keeps view
  execIn : ∀ token id inner text args, ((b.transaction token id).exec inner text args).Keeps view
  commit : ∀ token id, (b.transaction token id).commit.Keeps view
  rollback : ∀ token id, (b.transaction token id).rollback.Keeps view

/-- The contexts outside any transaction, and those inside a transaction of a connection. -/
def Connection.Serves (c : Connection σ) (ctx : Context σ) : Prop :=
  ∀ t, ctx.transaction = some t → ∃ token id, t = c.backend.transaction token id

theorem Connection.serves_opened (c : Connection σ) (ctx : Context σ) (id : Nat) :
    c.Serves (c.opened ctx id) := fun _ h => ⟨_, _, (Option.some.inj h).symm⟩

/-- A transaction of a connection runs its body in a context that the connection serves, and keeps
what the backend does not touch. -/
theorem Connection.transaction_serves {β : Type} {view : σ → β} {told : String → Action σ Unit}
    (hc : c.backend = b.heard told) (hb : b.Keeps view) (ctx : Context σ)
    (body : Context σ → Action σ Unit) :
    (c.transaction ctx body).Wraps view fun a => ∃ inner, c.Serves inner ∧ a = body inner := by
  refine (c.transaction_wraps ctx body ?_ ?_ ?_).mono ?_
  · rw [hc]
    exact hb.begin _
  · rw [hc]
    exact fun id => hb.commit _ id
  · rw [hc]
    exact fun id => hb.rollback _ id
  · rintro _ ⟨id, rfl⟩
    exact ⟨_, c.serves_opened ctx id, rfl⟩

/-- Statements over a connection that tells of them keep what neither the telling nor the backend
touches. -/
theorem Connection.exec_keeps {β : Type} {view : σ → β}
    (hc : c.backend = b.heard fun text => heard.change (· ++ [text]))
    (htold : ∀ texts s, view (heard.set texts s) = view s) (hb : b.Keeps view) {ctx : Context σ}
    (hctx : c.Serves ctx) (text : String) (args : List Value) :
    (c.exec ctx text args).Keeps view := by
  refine .bind (.check _) fun _ => ?_
  cases htx : ctx.transaction with
  | none =>
    dsimp only
    rw [hc]
    exact .bind (.change htold _) fun _ => hb.exec _ text args
  | some t =>
    obtain ⟨token, id, rfl⟩ := hctx t htx
    dsimp only
    rw [hc]
    exact .bind (.change htold _) fun _ => hb.execIn _ _ _ text args

variable (hc : c.backend = b.heard fun text => heard.change (· ++ [text]))
variable (hplace : ∀ texts s, place.get (heard.set texts s) = place.get s)
variable (hb : b.Keeps (Memory.ledger place heard).view)
include hplace

/-- A statement is told of before it runs, and so it was sent whether it fails or not. -/
theorem Memory.heard_bind {a : Action σ α} (ha : a.Keeps (Memory.ledger place heard).view)
    (text : String) (s : σ) :
    (heard.change (· ++ [text]) >>= fun _ => a).Ends s
      ((Memory.ledger place heard).Sends text s) := by
  rw [Action.Ends, Action.perform_bind_ok (Part.perform_change heard _ s)]
  obtain ⟨hrows, hsent⟩ := Prod.mk.inj (ha (heard.set (heard.get s ++ [text]) s))
  have htold : (Memory.ledger place heard).sent
      (a.perform (heard.set (heard.get s ++ [text]) s)).2 = heard.get s ++ [text] :=
    hsent.trans (heard.get_set _ s)
  refine ⟨hrows.trans ?_, ?_⟩
  · exact congrArg (fun m : Memory => (m.records : Multiset Applied)) (hplace _ s)
  · cases (a.perform (heard.set (heard.get s ++ [text]) s)).1 with
    | ok x => exact htold
    | error e => exact .inr htold

include hc hb

/-- Statements over a connection that tells of them. -/
theorem Connection.exec_heard {ctx : Context σ} (hctx : c.Serves ctx) (text : String)
    (args : List Value) (s : σ) :
    (c.exec ctx text args).Ends s ((Memory.ledger place heard).Sends text s) := by
  rw [Action.Ends, c.perform_exec]
  split
  · exact ⟨rfl, .inl rfl⟩
  · cases htx : ctx.transaction with
    | none =>
      dsimp only
      rw [hc]
      exact Memory.heard_bind hplace (hb.exec _ text args) text s
    | some t =>
      obtain ⟨token, id, rfl⟩ := hctx t htx
      dsimp only
      rw [hc]
      exact Memory.heard_bind hplace (hb.execIn _ _ _ text args) text s

/-- A history in memory writes to its ledger, over every backend that touches neither its records
nor what was told. -/
theorem Memory.history_writesTo (hheard : ∀ m s, heard.get (place.set m s) = heard.get s)
    (alwaysSafe : Bool) (broken : List String) :
    (Memory.history place c alwaysSafe broken).WritesTo (Memory.ledger place heard) c.Serves where
  isCreated ctx _ := .bind (.read _) fun _ => .pure _
  create ctx _ s := by
    refine Prod.ext ?_ (hheard _ s)
    show (((place.get (place.set _ s)).records : Multiset Applied)) = _
    rw [place.get_set]
    rfl
  list ctx _ s := by
    refine ⟨rfl, fun applied h => ?_⟩
    cases h
    exact Multiset.coe_eq_coe.mpr (List.mergeSort_perm _ _)
  insert ctx _ version s := by
    refine .bind (R := fun _ t => t = s) rfl (fun _ _ h => h ▸ ⟨rfl, rfl⟩) fun _ t ht => ?_
    refine .bind (R := fun _ u => u = s) (ht ▸ checkWritable_ends broken version t)
      (fun _ _ h => h ▸ ⟨rfl, rfl⟩) fun _ u hu => ?_
    rw [hu]
    refine ⟨hheard _ s, (place.get s).clock, ?_⟩
    show (((place.get (place.set _ s)).records : Multiset Applied)) = _
    rw [place.get_set]
    exact Multiset.coe_eq_coe.mpr (List.perm_append_singleton _ _)
  exec ctx hctx text s := by
    refine .bind (Connection.exec_heard hc hplace hb hctx text [] s) ?_ ?_
    · exact fun _ _ h => h
    · exact fun _ _ h => h
  transaction ctx _ body := Connection.transaction_serves hc hb ctx body

end Memory

/-! ### A bench for histories in memory -/

/-- A recorder keeps what is no part of it. -/
theorem Recorder.backend_keeps {β : Type} {view : σ → β} {driver : Driver}
    {place : Part σ Recorder} (h : ∀ r s, view (place.set r s) = view s) :
    (Recorder.backend driver place).Keeps view where
  exec _ _ _ := .bind (.check _) fun _ => .bind (.lift h _) fun _ => .pure _
  begin _ := .bind (.check _) fun _ => .lift h _
  execIn _ _ _ _ _ := .bind (.check _) fun _ => .bind (.lift h _) fun _ => .pure _
  commit _ _ := .lift h _
  rollback _ _ := .lift h _

/-- A state with a history in memory, a recorder for the statements of scripts, the faults in
front of it and what was told of the statements. -/
structure Bench where
  recorder : Recorder
  memory : Memory
  faults : List Scripted.Fault
  heard : List String
  reached : Bool

namespace Bench

/-- The parts of a bench. -/
def recorderPart : Part Bench Recorder :=
  { get := (·.recorder), set := fun r s => { s with recorder := r } }
def memoryPart : Part Bench Memory :=
  { get := (·.memory), set := fun m s => { s with memory := m } }
def faultsPart : Part Bench (List Scripted.Fault) :=
  { get := (·.faults), set := fun faults s => { s with faults := faults } }
def heardPart : Part Bench (List String) :=
  { get := (·.heard), set := fun texts s => { s with heard := texts } }
def reachedPart : Part Bench Bool :=
  { get := (·.reached), set := fun b s => { s with reached := b } }

/-- A bench on which nothing has happened yet. -/
def start (faults : List Scripted.Fault) : Bench := ⟨.empty, .empty, faults, [], false⟩

/-- A connection to a backend on a bench. -/
def connection (b : Backend Bench) : Connection Bench :=
  ⟨⟨.postgres, "localhost", [], "", "", "", [], ""⟩, b, reachedPart⟩

/-- A migrator that keeps its history on a bench. -/
def migrator (c : Connection Bench) : Migrator Bench :=
  ⟨Memory.history memoryPart c false [], "/", false, none, fun _ _ => pure ()⟩

end Bench

end SchemaMigration
