import SchemaMigration.Proofs.RecorderTransactions
import SchemaMigration.Proofs.ScriptSteps
/-! # The discipline of a transaction

`Connection.transaction` runs a body that it does not know.  The body is taken as a program of
calls on the connection (`Program`): each answer decides how it goes on, so that a body may
swallow a failure, hand it on, or try to open a transaction of its own.  The backend is taken as
any backend at all, in a state that keeps the calls it receives (`Watched`).

What such a run comes to is stated against how the begin, the commit and the rollback went
(`Ending`): one begin; then the statements of the body and nothing else; then one commit or one
rollback, and after a commit that failed one attempt at a rollback. -/
namespace SchemaMigration

open Scripted (Fault)

variable {σ α : Type}

/-- A body of a transaction.  Each call goes by the context that the body is given, and its
answer decides how the body goes on. -/
inductive Program where
  | finish (r : Except Failure Unit)
  | query (text : String) (args : List Value) (next : Except Failure Rows → Program)
  | exec (text : String) (args : List Value) (next : Except Failure ExecResult → Program)
  | transaction (body : Program) (next : Except Failure Unit → Program)

namespace Program

/-- Makes the calls of a program on a connection. -/
def run (c : Connection σ) : Program → Context σ → Action σ Unit
  | finish r, _ => .ofExcept r
  | query text args next, ctx => do (next (← (c.query ctx text args).outcome)).run c ctx
  | exec text args next, ctx => do (next (← (c.exec ctx text args).outcome)).run c ctx
  | transaction body next, ctx => do
    (next (← (c.transaction ctx fun inner => body.run c inner).outcome)).run c ctx

/-- The statement of a call, if the call succeeded. -/
def success (text : String) (args : List Value) : Except Failure α → List Recorded
  | .ok _ => [⟨text, args, true⟩]
  | .error _ => []

/-- The statements that succeed when a program runs inside a transaction from a state, in
order. -/
def successes (c : Connection σ) (ctx : Context σ) : Program → σ → List Recorded
  | finish _, _ => []
  | query text args next, s =>
    let (r, s) := (c.query ctx text args).perform s
    success text args r ++ (next r).successes c ctx s
  | exec text args next, s =>
    let (r, s) := (c.exec ctx text args).perform s
    success text args r ++ (next r).successes c ctx s
  | transaction body next, s =>
    let (r, s) := (c.transaction ctx fun inner => body.run c inner).perform s
    (next r).successes c ctx s

end Program

/-! ### What takes effect on a recorder -/

section Recorder

variable {driver : Driver} {place : Part σ Recorder} {o : Fault.Obstacle σ}
variable {c : Connection σ} {ctx : Context σ} {before : Recorder} {id : Nat}
variable {waiting : List Recorded} {s : σ}

open Recorder (Inside Undone Committed Received)

theorem Recorder.Received.inside {text : String} {args : List Value} {r : Except Failure α}
    {t : Recorder} (h : Received before id waiting ⟨text, args, true⟩ r t) :
    Inside before id (waiting ++ Program.success text args r) t := by
  rcases r with e | x
  · rw [Program.success, List.append_nil]
    exact h
  · exact h

/-- A program inside a transaction adds the statements that succeed to those that wait. -/
theorem Program.run_inside (hc : c.backend = Fault.behind o (Recorder.backend driver place))
    (ho : o.Keeps place.get) (hcancel : ctx.token.cancel.Keeps place.get) (p : Program)
    (h : Inside before id waiting (place.get s)) :
    (p.run c (c.opened ctx id)).Ends s fun _ t =>
      Inside before id
        (waiting ++ p.successes c (c.opened ctx id) s)
        (place.get t) := by
  induction p generalizing s waiting with
  | finish r =>
    rw [successes, List.append_nil, run, Action.Ends, Action.perform_ofExcept]
    exact h
  | query text args next ih =>
    have hq := (Connection.query_inside hc ho hcancel text args h).inside
    rw [successes, ← List.append_assoc]
    exact .outcome_bind (R := fun r t => (c.query _ text args).perform s = (r, t)) rfl
      fun r t ht => by rw [ht] at hq ⊢; exact ih r hq
  | exec text args next ih =>
    have hx := (Connection.exec_inside hc ho hcancel text args h).inside
    rw [successes, ← List.append_assoc]
    exact .outcome_bind (R := fun r t => (c.exec _ text args).perform s = (r, t)) rfl
      fun r t ht => by rw [ht] at hx ⊢; exact ih r hx
  | transaction body next _ ih =>
    -- the transaction that the body asks for is refused, and the body within it never runs
    have hr : (c.transaction (c.opened ctx id)
        fun inner => body.run c inner).perform s = (.error .transactionAlreadyOpened, s) :=
      c.transaction_refused rfl _ s
    rw [successes, hr]
    refine .outcome_bind (R := fun r t => (r, t) = (.error .transactionAlreadyOpened, s)) hr ?_
    rintro _ _ ⟨⟩
    exact ih _ h

end Recorder

/-! ### The calls that a backend receives -/

/-- A call that a backend or one of its transactions receives. -/
inductive Call where
  | begin
  | commit (id : Nat)
  | rollback (id : Nat)
  /-- A statement, with the number of its transaction if it belongs to one. -/
  | statement (transaction : Option Nat) (text : String) (args : List Value)
  deriving Repr

/-- A state, with the calls that the backend received so far. -/
structure Watched (σ : Type) where
  state : σ
  calls : List Call

namespace Watched

/-- The state itself as a part. -/
def statePart : Part (Watched σ) σ := { get := (·.state), set := fun s w => { w with state := s } }

/-- A token of the state, seen from outside. -/
def token (t : Token σ) : Token (Watched σ) where
  isRaised w := t.isRaised w.state
  raise w := { w with state := t.raise w.state }

/-- A token as the watched backend sees it, after the calls so far. -/
def tokenOf (t : Token (Watched σ)) (calls : List Call) : Token σ where
  isRaised s := t.isRaised ⟨s, calls⟩
  raise s := (t.raise ⟨s, calls⟩).state

/-- Notes a call and carries it out. -/
def note (call : Call) (a : List Call → Action σ α) : Action (Watched σ) α := .ofStep fun w =>
  let (r, s) := (a w.calls).perform w.state
  (r, ⟨s, w.calls ++ [call]⟩)

/-- A backend whose calls are noted. -/
def backend (b : Backend σ) : Backend (Watched σ) where
  driver := b.driver
  ping t := .ofStep fun w =>
    let (r, s) := (b.ping (tokenOf t w.calls)).perform w.state
    (r, { w with state := s })
  query t text args := note (.statement none text args) fun calls =>
    b.query (tokenOf t calls) text args
  exec t text args := note (.statement none text args) fun calls =>
    b.exec (tokenOf t calls) text args
  begin t := note .begin fun calls => b.begin (tokenOf t calls)
  transaction t id := {
    query := fun u text args => note (.statement (some id) text args) fun calls =>
      (b.transaction (tokenOf t calls) id).query (tokenOf u calls) text args
    exec := fun u text args => note (.statement (some id) text args) fun calls =>
      (b.transaction (tokenOf t calls) id).exec (tokenOf u calls) text args
    commit := note (.commit id) fun calls => (b.transaction (tokenOf t calls) id).commit
    rollback := note (.rollback id) fun calls => (b.transaction (tokenOf t calls) id).rollback }
  close := statePart.lift b.close

/-- A connection whose backend is watched. -/
def connection (c : Connection σ) : Connection (Watched σ) :=
  ⟨c.dsn, backend c.backend, statePart.inside c.reached⟩

@[simp] theorem perform_note (call : Call) (a : List Call → Action σ α) (w : Watched σ) :
    (note call a).perform w =
      (((a w.calls).perform w.state).1, ⟨((a w.calls).perform w.state).2, w.calls ++ [call]⟩) :=
  rfl

/-- From `w` on, only statements of the transaction `id` have been sent. -/
def Sending (id : Nat) (w w' : Watched σ) : Prop :=
  ∃ sent, w'.calls = w.calls ++ sent ∧
    ∀ call ∈ sent, ∃ text args, call = .statement (some id) text args

theorem Sending.refl (id : Nat) (w : Watched σ) : Sending id w w :=
  ⟨[], (List.append_nil _).symm, fun _ h => absurd h List.not_mem_nil⟩

theorem Sending.trans {id : Nat} {w w' w'' : Watched σ} (h : Sending id w w')
    (h' : Sending id w' w'') : Sending id w w'' := by
  obtain ⟨sent, hcalls, hsent⟩ := h
  obtain ⟨sent', hcalls', hsent'⟩ := h'
  refine ⟨sent ++ sent', by rw [hcalls', hcalls, List.append_assoc], fun call hcall => ?_⟩
  exact (List.mem_append.mp hcall).elim (hsent call) (hsent' call)

theorem note_sending (id : Nat) (text : String) (args : List Value)
    (a : List Call → Action σ α) (w : Watched σ) :
    (note (.statement (some id) text args) a).Ends w fun _ w' => Sending id w w' :=
  ⟨[.statement (some id) text args], rfl, fun _ h => ⟨text, args, List.mem_singleton.mp h⟩⟩

variable {c : Connection σ} {t : Token σ} {id : Nat}

/-- The context of the calls inside a transaction of a watched connection. -/
def opened (c : Connection σ) (t : Token σ) (id : Nat) : Context (Watched σ) :=
  (connection c).opened (.ofToken (token t)) id

/-- A call in a watched transaction is answered as it is without the watch, and the only calls
that it leads to are statements of the transaction. -/
def Follows (id : Nat) (a : Action σ α) (w : Watched σ) (r : Except Failure α)
    (w' : Watched σ) : Prop :=
  a.perform w.state = (r, w'.state) ∧ Sending id w w'

/-- A statement that is checked first is noted if it is sent at all. -/
theorem sent_follows (text : String) (args : List Value) (x : List Call → Action σ α)
    {a : Action σ α} {b : Action (Watched σ) α} {w : Watched σ}
    (ha : a.perform w.state =
      if t.isRaised w.state then (.error .cancelled, w.state) else (x w.calls).perform w.state)
    (hb : b.perform w =
      if t.isRaised w.state then (.error .cancelled, w)
      else (note (.statement (some id) text args) x).perform w) :
    b.Ends w (Follows id a w) := by
  by_cases h : t.isRaised w.state
  · rw [Action.Ends, hb, if_pos h]
    exact ⟨ha.trans (if_pos h), .refl id w⟩
  · rw [Action.Ends, hb, if_neg h]
    exact ⟨ha.trans (if_neg h), note_sending id text args x w⟩

theorem query_follows (text : String) (args : List Value) (w : Watched σ) :
    ((connection c).query (opened c t id) text args).Ends w
      (Follows id (c.query (c.opened (.ofToken t) id) text args) w) :=
  sent_follows text args (fun _ => (c.backend.transaction t id).query t text args)
    (c.perform_query (c.opened (.ofToken t) id) text args w.state)
    ((connection c).perform_query (opened c t id) text args w)

theorem exec_follows (text : String) (args : List Value) (w : Watched σ) :
    ((connection c).exec (opened c t id) text args).Ends w
      (Follows id (c.exec (c.opened (.ofToken t) id) text args) w) :=
  sent_follows text args (fun _ => (c.backend.transaction t id).exec t text args)
    (c.perform_exec (c.opened (.ofToken t) id) text args w.state)
    ((connection c).perform_exec (opened c t id) text args w)

/-- A program in a watched transaction goes on from each of its calls as it does without the
watch. -/
theorem Follows.outcome_bind {β : Type} {a : Action σ α} {f : Except Failure α → Action σ β}
    {b : Action (Watched σ) α} {g : Except Failure α → Action (Watched σ) β} {w : Watched σ}
    (hb : b.Ends w (Follows id a w)) (h : ∀ r u, (g r).Ends u (Follows id (f r) u)) :
    (b.outcome >>= g).Ends w (Follows id (a.outcome >>= f) w) := by
  refine .outcome_bind hb fun r u ⟨hu, hsent⟩ => (h r u).mono fun r' v ⟨hv, hsent'⟩ => ?_
  refine ⟨?_, hsent.trans hsent'⟩
  rw [Action.perform_outcome_bind, hu]
  exact hv

theorem run_follows (p : Program) (w : Watched σ) :
    (p.run (connection c) (opened c t id)).Ends w
      (Follows id (p.run c (c.opened (.ofToken t) id)) w) := by
  induction p generalizing w with
  | finish r =>
    rw [Action.Ends, Program.run, Program.run, Action.perform_ofExcept]
    exact ⟨Action.perform_ofExcept r _, .refl id w⟩
  | query text args next ih => exact Follows.outcome_bind (query_follows text args w) ih
  | exec text args next ih => exact Follows.outcome_bind (exec_follows text args w) ih
  | transaction body next _ ih =>
    refine Follows.outcome_bind ?_ ih
    rw [Action.Ends, Connection.transaction_refused _ rfl]
    exact ⟨c.transaction_refused rfl _ _, .refl id w⟩

end Watched

/-- How a transaction ends after its body: from the body's answer and the state that it left,
the calls that are made, the answer of the whole, and the state after it. -/
inductive Ending (t : Transaction σ) (id : Nat) :
    Except Failure Unit → σ → List Call → Except Failure Unit → σ → Prop
  /-- A body that failed is rolled back. -/
  | undone {e s s'} (h : t.rollback.perform s = (.ok (), s')) :
      Ending t id (.error e) s [.rollback id] (.error e) s'
  /-- Both failures are told when the rollback fails too. -/
  | stuck {e r s s'} (h : t.rollback.perform s = (.error r, s')) :
      Ending t id (.error e) s [.rollback id] (.error (.rollback e r)) s'
  | committed {s s'} (h : t.commit.perform s = (.ok (), s')) :
      Ending t id (.ok ()) s [.commit id] (.ok ()) s'
  /-- A commit that fails is followed by a rollback, whose answer does not count. -/
  | refused {f a s s' s''} (h : t.commit.perform s = (.error f, s'))
      (h' : t.rollback.perform s' = (a, s'')) :
      Ending t id (.ok ()) s [.commit id, .rollback id] (.error (.commit f)) s''

/-- The calls of its ending, and no others, are what settles a transaction. -/
theorem Ending.settle {x : Transaction σ} {id : Nat} {a r : Except Failure Unit} {s s' : σ}
    {calls : List Call} (h : Ending x id a s calls r s') :
    (Connection.settle x a).perform s = (r, s') := by
  cases h with
  | undone h | stuck h | committed h =>
    rw [Connection.settle, Action.perform_outcome_bind, h]
    rfl
  | refused h h' =>
    rw [Connection.settle, Action.perform_outcome_bind, h]
    simp only [Action.perform_outcome_bind, h', Action.perform_throw]

open Watched in
/-- After its body, a transaction makes the calls of its ending and no other. -/
theorem Watched.settle_ending (c : Connection σ) (t : Token σ) (id : Nat)
    (a : Except Failure Unit) (w : Watched σ) :
    (Connection.settle ((connection c).backend.transaction (token t) id) a).Ends w fun r w' =>
      ∃ calls, Ending (c.backend.transaction t id) id a w.state calls r w'.state ∧
        w'.calls = w.calls ++ calls := by
  rcases a with e | ⟨⟨⟩⟩
  · refine .outcome_bind (R := fun r u =>
      (c.backend.transaction t id).rollback.perform w.state = (r, u.state) ∧
        u.calls = w.calls ++ [.rollback id]) ⟨rfl, rfl⟩ ?_
    rintro (f | ⟨⟨⟩⟩) u ⟨hu, hcalls⟩
    · exact ⟨_, .stuck hu, hcalls⟩
    · exact ⟨_, .undone hu, hcalls⟩
  · refine .outcome_bind (R := fun r u =>
      (c.backend.transaction t id).commit.perform w.state = (r, u.state) ∧
        u.calls = w.calls ++ [.commit id]) ⟨rfl, rfl⟩ ?_
    rintro (f | ⟨⟨⟩⟩) u ⟨hu, hcalls⟩
    · refine .outcome_bind (R := fun r v =>
        (c.backend.transaction t id).rollback.perform u.state = (r, v.state) ∧
          v.calls = u.calls ++ [.rollback id]) ⟨rfl, rfl⟩ ?_
      rintro r v ⟨hv, hcalls'⟩
      exact ⟨_, .refused hu hv, hcalls'.trans (by rw [hcalls, List.append_assoc]; rfl)⟩
    · exact ⟨_, .committed hu, hcalls⟩

/-- A watched transaction is answered as it is without the watch.  Its calls are one begin, the
statements of its body and the calls of its ending. -/
theorem Watched.transaction_ends (c : Connection σ) (t : Token σ) (p : Program) (w : Watched σ)
    (h : t.isRaised w.state = false) :
    ((connection c).transaction (.ofToken (token t)) (p.run (connection c))).Ends w fun r w' =>
      (c.transaction (.ofToken t) (p.run c)).perform w.state = (r, w'.state) ∧
      match (c.backend.begin t).perform w.state with
      | (.error e, s) => r = .error e ∧ w' = ⟨s, w.calls ++ [.begin]⟩
      | (.ok id, s) => ∃ a s' sent calls,
          (p.run c (c.opened (.ofToken t) id)).perform s = (a, s') ∧
          (∀ call ∈ sent, ∃ text args, call = .statement (some id) text args) ∧
          Ending (c.backend.transaction t id) id a s' calls r w'.state ∧
          w'.calls = w.calls ++ [.begin] ++ sent ++ calls := by
  -- the watch notes the begin whether it fails or not
  have hraised : (token t).isRaised w = false := h
  have hbegin : ((connection c).backend.begin (token t)).perform w =
      (((c.backend.begin t).perform w.state).1,
        ⟨((c.backend.begin t).perform w.state).2, w.calls ++ [.begin]⟩) := rfl
  rcases hb : (c.backend.begin t).perform w.state with ⟨e | id, s⟩ <;> rw [hb] at hbegin
  · rw [Action.Ends, (connection c).transaction_of_begin_error rfl hraised hbegin]
    exact ⟨c.transaction_of_begin_error rfl h hb _, rfl, rfl⟩
  · have hbody : (p.run (connection c) (opened c t id)).Ends ⟨s, w.calls ++ [.begin]⟩ _ :=
      run_follows p _
    rw [Action.Ends, (connection c).transaction_of_begin_ok rfl hraised hbegin]
    rcases hrun : (p.run (connection c) (opened c t id)).perform ⟨s, w.calls ++ [.begin]⟩
      with ⟨a, v⟩
    rw [Action.Ends, hrun] at hbody
    rw [show (connection c).opened (.ofToken (token t)) id = opened c t id from rfl, hrun]
    obtain ⟨hbody, sent, hcalls, hsent⟩ := hbody
    obtain ⟨calls, hending, hcalls'⟩ := settle_ending c t id a v
    -- the plain run has the same body and the same ending, so it has the same answer
    refine ⟨?_, a, v.state, sent, calls, hbody, hsent, hending, ?_⟩
    · rw [c.transaction_of_begin_ok rfl h hb, hbody]
      exact hending.settle
    · exact hcalls'.trans (by rw [hcalls])

open Recorder (Undone Committed Closed) in
/-- **The discipline of a transaction**, for every backend and every body, from a context that
is not cancelled and has no transaction:

* `begin` is called once.  If it fails, its failure is the answer and the body does not run.
  Otherwise the body runs, and the only calls that it leads to are statements of the
  transaction; then come the calls of the ending, and no others.
* In a context that has a transaction, a further one is refused and the state is left as it is.
* On a recorder, whatever comes between it and the calls, what the body sent with success takes
  effect in its order if the transaction succeeds, and nothing takes effect otherwise; and the
  transaction is closed, unless something came between it and its rollback. -/
theorem transaction_discipline (c : Connection σ) (t : Token σ) (p : Program) (w : Watched σ)
    (h : t.isRaised w.state = false) :
    (((Watched.connection c).transaction (.ofToken (Watched.token t))
        (p.run (Watched.connection c))).Ends w fun r w' =>
      (c.transaction (.ofToken t) (p.run c)).perform w.state = (r, w'.state) ∧
      match (c.backend.begin t).perform w.state with
      | (.error e, s) => r = .error e ∧ w' = ⟨s, w.calls ++ [.begin]⟩
      | (.ok id, s) => ∃ a s' sent calls,
          (p.run c (c.opened (.ofToken t) id)).perform s = (a, s') ∧
          (∀ call ∈ sent, ∃ text args, call = .statement (some id) text args) ∧
          Ending (c.backend.transaction t id) id a s' calls r w'.state ∧
          w'.calls = w.calls ++ [.begin] ++ sent ++ calls) ∧
    (∀ (ctx : Context σ) (x : Transaction σ) (body : Context σ → Action σ Unit) (s : σ),
      ctx.transaction = some x →
        (c.transaction ctx body).perform s = (.error .transactionAlreadyOpened, s)) ∧
    (∀ (driver : Driver) (place : Part σ Recorder) (o : Fault.Obstacle σ),
      c.backend = Fault.behind o (Recorder.backend driver place) → o.Keeps place.get →
      t.cancel.Keeps place.get →
      (c.transaction (.ofToken t) (p.run c)).Ends w.state fun r s' =>
        (match r with
          | .error _ => Undone (place.get w.state) (place.get s')
          | .ok _ => ∃ id s, (c.backend.begin t).perform w.state = (.ok id, s) ∧
              Committed (place.get w.state)
                (p.successes c (c.opened (.ofToken t) id) s)
                (place.get s')) ∧
        (o.LetsRollBack → ∀ id s, (c.backend.begin t).perform w.state = (.ok id, s) →
          Closed id (place.get s'))) := by
  refine ⟨?_, fun ctx x body s hctx => c.transaction_refused hctx body s, ?_⟩
  · exact Watched.transaction_ends c t p w h
  · intro driver place o hc ho hcancel
    have hbody (id : Nat) (s : σ) (hin : Recorder.Inside (place.get w.state) id [] (place.get s)) :
        (p.run c (c.opened (.ofToken t) id)).Ends s fun _ u =>
          ∃ new, Recorder.Inside (place.get w.state) id new (place.get u) ∧
            new = p.successes c (c.opened (.ofToken t) id) s :=
      (p.run_inside hc ho hcancel hin).mono fun _ _ hu => ⟨_, hu, rfl⟩
    refine (Connection.transaction_all_or_nothing hc ho hcancel
      (R := fun id s _ new =>
        new = p.successes c (c.opened (.ofToken t) id) s)
      rfl hbody).mono fun r s' ⟨hr, hclosed⟩ => ⟨?_, ?_⟩
    · rcases r with e | ⟨⟨⟩⟩
      · exact hr
      · obtain ⟨id, s, _, hbegin, rfl, hcommitted⟩ := hr
        exact ⟨id, s, hbegin, hcommitted⟩
    · exact fun hlets id s hbegin => hclosed hlets id s hbegin h

/-- A connection to a recorder in a state that holds nothing else. -/
def Recorder.connection (driver : Driver) : Connection (Recorder × Bool) where
  dsn := ⟨driver, "localhost", [], "", "", "", [], ""⟩
  backend := backend driver { get := (·.1), set := fun r s => (r, s.2) }
  reached := { get := (·.2), set := fun b s => (s.1, b) }

/-- A statement, then a transaction that is refused, and success all the same. -/
def Program.hiding : Program :=
  .exec "DELETE FROM users" [] fun _ => .transaction (.finish (.ok ())) fun _ => .finish (.ok ())

/-- The refusal that a body hides leaves its statement in place. -/
theorem transaction_discipline_hiding :
    Recorder.Committed .empty [⟨"DELETE FROM users", [], true⟩]
      (((Recorder.connection .postgres).transaction (.ofToken .never)
        (Program.hiding.run (Recorder.connection .postgres))).perform (.empty, false)).2.1 := by
  obtain ⟨id, s, hbegin, h⟩ := ((transaction_discipline (Recorder.connection .postgres) .never
    Program.hiding ⟨(.empty, false), []⟩ rfl).2.2 .postgres _ Fault.clear
    (Fault.behind_clear _).symm (Fault.clear_keeps _) (fun _ => rfl)).1
  cases hbegin
  exact h

end SchemaMigration
