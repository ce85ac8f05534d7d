import SchemaMigration.Proofs.ActionFrames
import SchemaMigration.Recorder
/-! # Transactions of a recorder

The statements of a transaction wait until it commits.  `Inside` follows a recorder from the
begin of a transaction: the statements that took effect and the numbers of commits and
rollbacks are those from before, and the transaction is open with the statements that wait.
Whatever a body does, as long as it stays inside, a transaction of a connection to the recorder
is all or nothing (`transaction_all_or_nothing`), even when failures and cancellations come
between the calls and the recorder. -/
namespace SchemaMigration

open Scripted (Fault)

variable {σ α β : Type}

namespace Recorder

/-- A recorder inside the transaction `id`, which began when the recorder was `before`, and in
which `waiting` has been received. -/
structure Inside (before : Recorder) (id : Nat) (waiting : List Recorded) (r : Recorder) :
    Prop where
  isOpen : r.transactions[id]? = some ⟨waiting, true⟩
  statements : r.statements = before.statements
  begins : r.begins = before.begins + 1
  commits : r.commits = before.commits
  rollbacks : r.rollbacks = before.rollbacks

/-- A transaction of which nothing took effect. -/
structure Undone (before r : Recorder) : Prop where
  statements : r.statements = before.statements
  commits : r.commits = before.commits

/-- A transaction that committed `new`. -/
structure Committed (before : Recorder) (new : List Recorded) (r : Recorder) : Prop where
  statements : r.statements = before.statements ++ new
  begins : r.begins = before.begins + 1
  commits : r.commits = before.commits + 1
  rollbacks : r.rollbacks = before.rollbacks

/-- The transaction `id` refuses every further call, and nothing waits in it. -/
def Closed (id : Nat) (r : Recorder) : Prop := r.transactions[id]? = some ⟨[], false⟩

theorem Undone.refl (r : Recorder) : Undone r r := ⟨rfl, rfl⟩

theorem Inside.undone {before r : Recorder} {id : Nat} {waiting : List Recorded}
    (h : Inside before id waiting r) : Undone before r := ⟨h.statements, h.commits⟩

/-- What a statement of an open transaction comes to: it waits, or it failed. -/
def Received (before : Recorder) (id : Nat) (waiting : List Recorded) (statement : Recorded)
    (a : Except Failure α) (r : Recorder) : Prop :=
  match a with
  | .ok _ => Inside before id (waiting ++ [statement]) r
  | .error _ => Inside before id waiting r

/-- What a commit comes to: what waits takes effect, or the transaction goes on. -/
def Settled (before : Recorder) (id : Nat) (waiting : List Recorded) (a : Except Failure Unit)
    (r : Recorder) : Prop :=
  match a with
  | .ok _ => Committed before waiting r ∧ Closed id r
  | .error _ => Inside before id waiting r

/-- A recorder that took in `new` outside any transaction. -/
structure Added (before : Recorder) (new : List Recorded) (r : Recorder) : Prop where
  statements : r.statements = before.statements ++ new
  begins : r.begins = before.begins
  commits : r.commits = before.commits
  rollbacks : r.rollbacks = before.rollbacks

theorem Added.refl (r : Recorder) : Added r [] r := ⟨(List.append_nil _).symm, rfl, rfl, rfl⟩

theorem Added.trans {r r' r'' : Recorder} {new new' : List Recorded} (h : Added r new r')
    (h' : Added r' new' r'') : Added r (new ++ new') r'' where
  statements := by rw [h'.statements, h.statements, List.append_assoc]
  begins := h'.begins.trans h.begins
  commits := h'.commits.trans h.commits
  rollbacks := h'.rollbacks.trans h.rollbacks

/-- What a statement outside any transaction comes to: it takes effect, or it failed. -/
def Taken (before : Recorder) (statement : Recorded) (a : Except Failure α) (r : Recorder) :
    Prop :=
  match a with
  | .ok _ => Added before [statement] r
  | .error _ => r = before

theorem receive_ends (text : String) (args : List Value) (r : Recorder) :
    (receive text args).Ends r (Taken r ⟨text, args, false⟩) := by
  rw [Action.Ends, receive, Action.perform_ofStep]
  cases r.failure? text with
  | some f => rfl
  | none => exact ⟨rfl, rfl, rfl, rfl⟩

theorem begin_ends (r : Recorder) :
    begin.Ends r fun a t => ∃ id, a = .ok id ∧ Inside r id [] t :=
  ⟨r.transactions.length, rfl, by simp [begin], rfl, rfl, rfl, rfl⟩

theorem receiveIn_ends {before r : Recorder} {id : Nat} {waiting : List Recorded}
    (h : Inside before id waiting r) (text : String) (args : List Value) :
    (receiveIn id text args).Ends r (Received before id waiting ⟨text, args, true⟩) := by
  have hid : id < r.transactions.length := (List.getElem?_eq_some_iff.mp h.isOpen).1
  simp only [Action.Ends, receiveIn, withOpen, Action.perform_ofStep, h.isOpen, ite_true]
  split
  · exact h
  · exact ⟨by simp [replace, hid], h.statements, h.begins, h.commits, h.rollbacks⟩

theorem commit_ends {before r : Recorder} {id : Nat} {waiting : List Recorded}
    (h : Inside before id waiting r) : (commit id).Ends r (Settled before id waiting) := by
  have hid : id < r.transactions.length := (List.getElem?_eq_some_iff.mp h.isOpen).1
  simp only [Action.Ends, commit, withOpen, Action.perform_ofStep, h.isOpen, ite_true]
  split
  · exact h
  · exact ⟨⟨by simp [h.statements], h.begins, by simp [h.commits], h.rollbacks⟩,
      by simp [Closed, replace, hid]⟩

/-- A rollback leaves the statements that took effect as they are, and closes the
transaction. -/
theorem rollback_ends {before r : Recorder} {id : Nat} {waiting : List Recorded}
    (h : Inside before id waiting r) :
    (rollback id).Ends r fun _ t => Undone before t ∧ Closed id t := by
  have hid : id < r.transactions.length := (List.getElem?_eq_some_iff.mp h.isOpen).1
  simp only [Action.Ends, rollback, withOpen, Action.perform_ofStep, h.isOpen, ite_true]
  exact ⟨⟨h.statements, h.commits⟩, by simp [Closed, replace, hid]⟩

end Recorder

/-! ### A connection to a recorder behind an obstacle -/

variable {driver : Driver} {place : Part σ Recorder} {o : Fault.Obstacle σ}
variable {c : Connection σ} {ctx : Context σ} {before : Recorder} {id : Nat}
variable {waiting : List Recorded} {s : σ}

open Recorder (Inside Undone Committed Closed Received Settled Taken)

/-- A call goes on inside the transaction after a part that does not touch the recorder. -/
theorem Recorder.Inside.keeps_bind {statement : Recorded} {a : Action σ α}
    {f : α → Action σ β} (h : Inside before id waiting (place.get s))
    (ha : a.Keeps place.get)
    (hf : ∀ x t, Inside before id waiting (place.get t) →
      (f x).Ends t fun r u => Received before id waiting statement r (place.get u)) :
    (a >>= f).Ends s fun r u => Received before id waiting statement r (place.get u) :=
  .keeps_bind ha (fun _ t ht => show Inside before id waiting (place.get t) from ht ▸ h)
    fun x t ht => hf x t (ht ▸ h)

/-- A call outside any transaction goes on after a part that does not touch the recorder. -/
theorem Recorder.Taken.keeps_bind {statement : Recorded} {a : Action σ α} {f : α → Action σ β}
    (hs : place.get s = before) (ha : a.Keeps place.get)
    (hf : ∀ x t, place.get t = before →
      (f x).Ends t fun r u => Taken before statement r (place.get u)) :
    (a >>= f).Ends s fun r u => Taken before statement r (place.get u) :=
  .keeps_bind ha (fun _ t ht => show place.get t = before from ht.trans hs)
    fun x t ht => hf x t (ht.trans hs)

section Inside
variable (hc : c.backend = Fault.behind o (Recorder.backend driver place)) (ho : o.Keeps place.get)
include hc ho

theorem Connection.commit_inside (h : Inside before id waiting (place.get s)) :
    (c.backend.transaction ctx.token id).commit.Ends s fun a t =>
      Settled before id waiting a (place.get t) := by
  rw [hc]
  refine .keeps_bind (ho _ _ (.pure _)) (fun _ t ht => ?_) fun _ t ht => ?_
  · exact show Inside before id waiting (place.get t) from ht ▸ h
  · exact .lift (Recorder.commit_ends (ht ▸ h))

theorem Connection.rollback_inside (h : Inside before id waiting (place.get s)) :
    (c.backend.transaction ctx.token id).rollback.Ends s fun _ t =>
      Undone before (place.get t) ∧ (o.LetsRollBack → Closed id (place.get t)) := by
  rw [hc]
  refine .bind (R := fun r t => place.get t = place.get s ∧ (o.LetsRollBack → r = .ok ()))
    ⟨ho _ _ (.pure _) s, fun hlets => hlets s⟩ ?_ fun _ t ht => ?_
  · exact fun e t ht => ⟨ht.1 ▸ h.undone, fun hlets => nomatch ht.2 hlets⟩
  · exact (Action.Ends.lift (Recorder.rollback_ends (ht.1 ▸ h))).mono
      fun _ _ hu => ⟨hu.1, fun _ => hu.2⟩

/-- The end of a transaction after its body: what the body sent takes effect if the body
succeeded and so did the commit, and nothing does otherwise. -/
theorem Connection.settle_inside {a : Except Failure Unit}
    (h : Inside before id waiting (place.get s)) :
    (Connection.settle (c.backend.transaction ctx.token id) a).Ends s fun r t =>
      (match r with
        | .error _ => Undone before (place.get t)
        | .ok _ => a = .ok () ∧ Committed before waiting (place.get t)) ∧
      (o.LetsRollBack → Closed id (place.get t)) := by
  rcases a with e | ⟨⟨⟩⟩
  · refine .outcome_bind (Connection.rollback_inside hc ho h) ?_
    rintro (f | ⟨⟨⟩⟩) t ht
    · exact ht
    · exact ht
  · refine .outcome_bind (Connection.commit_inside hc ho h) ?_
    rintro (f | ⟨⟨⟩⟩) t ht
    -- a commit that fails leaves the transaction open, so the rollback finds it as the body left it
    · exact .outcome_bind (Connection.rollback_inside hc ho ht) fun _ _ hu => hu
    · exact ⟨⟨rfl, ht.1⟩, fun _ => ht.2⟩

variable (hcancel : ctx.token.cancel.Keeps place.get)
include hcancel

/-- A statement that a body sends waits for the commit, or it failed and left no trace. -/
theorem Connection.exec_inside (text : String) (args : List Value)
    (h : Inside before id waiting (place.get s)) :
    (c.exec (c.opened ctx id) text args).Ends s fun a t =>
      Received before id waiting ⟨text, args, true⟩ a (place.get t) := by
  rw [Connection.opened, hc]
  refine h.keeps_bind (.check _) fun _ t h => ?_
  refine h.keeps_bind (ho _ _ hcancel) fun _ u h => ?_
  refine h.keeps_bind (.check _) fun _ v h => ?_
  exact .bind (.lift (Recorder.receiveIn_ends h text args)) (fun _ _ h => h) fun _ _ h => h

theorem Connection.query_inside (text : String) (args : List Value)
    (h : Inside before id waiting (place.get s)) :
    (c.query (c.opened ctx id) text args).Ends s fun a t =>
      Received before id waiting ⟨text, args, true⟩ a (place.get t) := by
  rw [Connection.opened, hc]
  refine h.keeps_bind (.check _) fun _ t h => ?_
  refine h.keeps_bind (ho _ _ hcancel) fun _ u h => ?_
  refine h.keeps_bind (.check _) fun _ v h => ?_
  exact .lift (Recorder.receiveIn_ends h text args)

/-- A statement outside any transaction takes effect, or it failed and left no trace. -/
theorem Connection.exec_outside (hctx : ctx.transaction = none) (text : String)
    (args : List Value) :
    (c.exec ctx text args).Ends s fun a t =>
      Taken (place.get s) ⟨text, args, false⟩ a (place.get t) := by
  rw [Connection.exec, hctx, hc]
  refine Taken.keeps_bind rfl (.check _) fun _ t h => ?_
  refine Taken.keeps_bind h (ho _ _ hcancel) fun _ u h => ?_
  refine Taken.keeps_bind h (.check _) fun _ v h => ?_
  rw [← h]
  exact .bind (.lift (Recorder.receive_ends text args _)) (fun _ _ h => h) fun _ _ h => h

/-- A begin opens a transaction in which nothing has been received, or it leaves the recorder
as it is. -/
theorem Connection.begin_inside :
    (c.backend.begin ctx.token).Ends s fun a t => match a with
      | .ok id => Inside (place.get s) id [] (place.get t)
      | .error _ => place.get t = place.get s := by
  rw [hc]
  refine .keeps_bind (ho _ _ hcancel) (fun _ t ht => ht) fun _ t ht => ?_
  refine .keeps_bind (.check _) (fun _ u hu => hu.trans ht) fun _ u hu => ?_
  rw [← hu.trans ht]
  refine (Action.Ends.lift (Recorder.begin_ends (place.get u))).mono ?_
  rintro _ v ⟨id, rfl, hin⟩
  exact hin

/-- **A transaction of a recorder is all or nothing.**  For a body that stays inside, what it
sent takes effect exactly when the transaction succeeds, by one begin and one commit, and the
body has succeeded then; otherwise the statements that took effect are those from before.
Either way the transaction is closed, unless something comes between it and its rollback.
`R` is what is known of the body: its answer and what it sent. -/
theorem Connection.transaction_all_or_nothing {body : Context σ → Action σ Unit}
    {R : Nat → σ → Except Failure Unit → List Recorded → Prop} (hctx : ctx.transaction = none)
    (hbody : ∀ id t, Inside (place.get s) id [] (place.get t) →
      (body (c.opened ctx id)).Ends t fun a u =>
        ∃ new, Inside (place.get s) id new (place.get u) ∧ R id t a new) :
    (c.transaction ctx body).Ends s fun a t =>
      (match a with
        | .error _ => Undone (place.get s) (place.get t)
        | .ok _ => ∃ id u new, (c.backend.begin ctx.token).perform s = (.ok id, u) ∧
          R id u (.ok ()) new ∧ Committed (place.get s) new (place.get t)) ∧
      (o.LetsRollBack → ∀ id u, (c.backend.begin ctx.token).perform s = (.ok id, u) →
        ctx.token.isRaised s = false → Closed id (place.get t)) := by
  rw [Connection.transaction, hctx]
  refine .bind (R := fun r t => t = s ∧ (ctx.token.isRaised s = false → r = .ok ())) ?_ ?_ ?_
  · exact ⟨rfl, fun h => by simp [h]⟩
  · rintro e t ⟨rfl, hraised⟩
    exact ⟨.refl _, fun _ _ _ _ h => nomatch hraised h⟩
  rintro - t ⟨rfl, -⟩
  -- the begin: its answer decides whether there is anything to undo
  refine .bind (R := fun a u => (c.backend.begin ctx.token).perform t = (a, u) ∧ match a with
      | .ok id => Inside (place.get t) id [] (place.get u)
      | .error _ => place.get u = place.get t) ⟨rfl, ?_⟩ ?_ ?_
  · exact Connection.begin_inside hc ho hcancel
  · rintro e u ⟨hbegin, hu⟩
    exact ⟨hu ▸ .refl _, fun _ _ _ h _ => by rw [hbegin] at h; nomatch h⟩
  rintro id u ⟨hbegin, hu⟩
  -- the body may do as it likes inside, and what it answers is settled by the end
  refine .outcome_bind (hbody id u hu) ?_
  rintro a v ⟨new, hv, hR⟩
  refine (Connection.settle_inside hc ho hv).mono fun r w ⟨hw, hclosed⟩ => ⟨?_, ?_⟩
  · rcases r with e | ⟨⟨⟩⟩
    · exact hw
    · obtain ⟨rfl, hcommitted⟩ := hw
      exact ⟨id, u, new, hbegin, hR, hcommitted⟩
  · intro hlets id' u' h _
    obtain ⟨rfl, -⟩ : id = id' ∧ u = u' := by simpa [hbegin] using h
    exact hclosed hlets

end Inside

end SchemaMigration
