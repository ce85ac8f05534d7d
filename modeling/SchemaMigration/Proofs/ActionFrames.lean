import SchemaMigration.Scripted.Fault
import Mathlib.Order.Defs.Unbundled
/-! # What an action leaves alone, and how it ends

What an action can do to a state is a relation between the states before and after it (`Within`).
If the relation is a preorder, it passes from the parts of an action to the whole.

A state has parts that do not know of each other.  An action *keeps* a view of the state when
the view shows the same before and after it, whether it fails or not (`Keeps`).  What keeps a
view can be put together from parts that do, so that a whole run is seen to keep what none of
its calls touch.  How a single run ends is stated by `Ends`, and is followed from part to part:
a part that fails ends the whole.  What holds only of runs that succeed is stated by `Gives`. -/
namespace SchemaMigration

variable {σ τ α β γ δ : Type}

/-- However the action ends, the states before and after it stand in a relation. -/
def Action.Within (R : σ → σ → Prop) (a : Action σ α) : Prop := ∀ s, R s (a.perform s).2

namespace Action.Within

variable {R : σ → σ → Prop} {a : Action σ α} {s t : σ} {r : Except Failure α}

theorem of_perform (ha : a.Within R) (h : a.perform s = (r, t)) : R s t := by
  have := ha s
  rwa [h] at this

theorem outcome (ha : a.Within R) : a.outcome.Within R := fun s => ha s

variable [IsPreorder σ R]

/-- What leaves the whole state alone. -/
theorem still (h : ∀ s, (a.perform s).2 = s) : a.Within R := fun s => (h s).symm ▸ refl s

theorem pure (x : α) : (Pure.pure x : Action σ α).Within R := still fun _ => rfl

theorem throw (e : Failure) : (MonadExcept.throw e : Action σ α).Within R := still fun _ => rfl

theorem ofExcept (r : Except Failure α) : (Action.ofExcept r : Action σ α).Within R :=
  still fun s => by rw [perform_ofExcept]

theorem read (p : Part σ τ) : p.read.Within R := still fun _ => rfl

theorem check (t : Token σ) : t.check.Within R := still fun _ => rfl

theorem bind {f : α → Action σ β} (ha : a.Within R) (hf : ∀ x, (f x).Within R) :
    (a >>= f).Within R := by
  intro s
  rcases h : a.perform s with ⟨e | x, t⟩
  · rw [perform_bind_error h]
    exact ha.of_perform h
  · rw [perform_bind_ok h]
    exact IsTrans.trans _ _ _ (ha.of_perform h) (hf x t)

theorem guard (t : Token σ) (ha : a.Within R) : (t.guard a).Within R :=
  bind (check t) fun _ => bind ha.outcome fun _ => bind (check t) fun _ => ofExcept _

theorem forM {xs : List δ} {f : δ → Action σ PUnit} (hf : ∀ x, (f x).Within R) :
    (xs.forM f).Within R := by
  induction xs with
  | nil => exact pure _
  | cons x xs ih =>
    show (f x >>= fun _ => xs.forM f).Within R
    exact (hf x).bind fun _ => ih

end Action.Within

/-- The action never changes what `view` shows. -/
def Action.Keeps (view : σ → γ) (a : Action σ α) : Prop :=
  ∀ s, view (a.perform s).2 = view s

namespace Action.Keeps

variable {view : σ → γ} {a : Action σ α} {s t : σ} {r : Except Failure α}

theorem of_perform (ha : a.Keeps view) (h : a.perform s = (r, t)) : view t = view s := by
  rw [← ha s, h]

theorem pure (x : α) : (Pure.pure x : Action σ α).Keeps view := fun _ => rfl

theorem throw (e : Failure) : (MonadExcept.throw e : Action σ α).Keeps view := fun _ => rfl

theorem ofExcept (r : Except Failure α) : (Action.ofExcept r : Action σ α).Keeps view :=
  fun s => by rw [perform_ofExcept]

theorem outcome (ha : a.Keeps view) : a.outcome.Keeps view := fun s => ha s

theorem mapFailure (g : Failure → Failure) (ha : a.Keeps view) : (a.mapFailure g).Keeps view :=
  fun s => ha s

instance (view : σ → γ) : IsPreorder σ fun s t => view t = view s where
  refl _ := rfl
  trans _ _ _ h h' := h'.trans h

theorem bind {f : α → Action σ β} (ha : a.Keeps view) (hf : ∀ x, (f x).Keeps view) :
    (a >>= f).Keeps view :=
  Within.bind (R := fun s t => view t = view s) ha hf

theorem forM {xs : List δ} {f : δ → Action σ PUnit} (hf : ∀ x, (f x).Keeps view) :
    (xs.forM f).Keeps view :=
  Within.forM (R := fun s t => view t = view s) hf

theorem read (p : Part σ τ) : p.read.Keeps view := fun _ => rfl

/-- What does not show a part is kept by actions on the part. -/
theorem lift {p : Part σ τ} (h : ∀ t s, view (p.set t s) = view s) (b : Action τ α) :
    (p.lift b).Keeps view := fun s => h _ s

theorem change {p : Part σ τ} (h : ∀ t s, view (p.set t s) = view s) (f : τ → τ) :
    (p.change f).Keeps view := fun s => h _ s

theorem write {p : Part σ τ} (h : ∀ t s, view (p.set t s) = view s) (t : τ) :
    (p.write t).Keeps view := fun s => h _ s

theorem check (t : Token σ) : t.check.Keeps view := fun _ => rfl

end Action.Keeps

/-- Run from `s`, the action ends with an answer and a state of which `Q` holds. -/
def Action.Ends (a : Action σ α) (s : σ) (Q : Except Failure α → σ → Prop) : Prop :=
  Q (a.perform s).1 (a.perform s).2

namespace Action.Ends

variable {a : Action σ α} {f : α → Action σ β} {s : σ}
variable {Q : Except Failure β → σ → Prop} {R : Except Failure α → σ → Prop}

theorem mono {R' : Except Failure α → σ → Prop} (ha : a.Ends s R) (h : ∀ r t, R r t → R' r t) :
    a.Ends s R' := h _ _ ha

theorem bind (ha : a.Ends s R) (error : ∀ e t, R (.error e) t → Q (.error e) t)
    (ok : ∀ x t, R (.ok x) t → (f x).Ends t Q) : (a >>= f).Ends s Q := by
  unfold Ends at ha ⊢
  rcases h : a.perform s with ⟨e | x, t⟩ <;> rw [h] at ha
  · rw [perform_bind_error h]
    exact error e t ha
  · rw [perform_bind_ok h]
    exact ok x t ha

/-- A first part that keeps what the rest depends on. -/
theorem keeps_bind {view : σ → γ} (ha : a.Keeps view)
    (error : ∀ e t, view t = view s → Q (.error e) t)
    (ok : ∀ x t, view t = view s → (f x).Ends t Q) : (a >>= f).Ends s Q :=
  bind (R := fun _ t => view t = view s) (ha s) error ok

/-- The rest decides what becomes of a failure. -/
theorem outcome_bind {f : Except Failure α → Action σ β} (ha : a.Ends s R)
    (h : ∀ r t, R r t → (f r).Ends t Q) : (a.outcome >>= f).Ends s Q := by
  unfold Ends
  rw [perform_outcome_bind]
  exact h _ _ ha

theorem mapFailure {g : Failure → Failure} (h : a.Ends s fun r t => R (r.mapError g) t) :
    (a.mapFailure g).Ends s R := h

theorem lift {p : Part σ τ} {b : Action τ α} {R : Except Failure α → τ → Prop}
    (hb : b.Ends (p.get s) R) : (p.lift b).Ends s fun r t => R r (p.get t) := by
  show R _ _
  rw [Part.perform_lift, p.get_set]
  exact hb

end Action.Ends

/-- If the action succeeds from `s`, then `Q` holds of its answer and of the state after it. -/
def Action.Gives (a : Action σ α) (s : σ) (Q : α → σ → Prop) : Prop :=
  a.Ends s fun r t => ∀ x, r = .ok x → Q x t

namespace Action.Gives

variable {a : Action σ α} {f : α → Action σ β} {s : σ} {R R' : α → σ → Prop} {Q : β → σ → Prop}

theorem of_perform {x : α} {t : σ} (ha : a.Gives s R) (h : a.perform s = (.ok x, t)) : R x t := by
  rw [Gives, Ends, h] at ha
  exact ha x rfl

theorem mono (ha : a.Gives s R) (h : ∀ x t, R x t → R' x t) : a.Gives s R' :=
  Ends.mono ha fun _ t hR x hx => h x t (hR x hx)

theorem bind (ha : a.Gives s R) (hf : ∀ x t, R x t → (f x).Gives t Q) : (a >>= f).Gives s Q :=
  Ends.bind ha (fun _ _ _ => nofun) fun x t hR => hf x t (hR x rfl)

theorem pure {x : α} (h : R x s) : (Pure.pure x : Action σ α).Gives s R := by
  rintro _ ⟨⟩
  exact h

theorem throw (e : Failure) : (MonadExcept.throw e : Action σ α).Gives s R := nofun

theorem ofExcept {r : Except Failure α} (h : ∀ x, r = .ok x → R x s) :
    (Action.ofExcept r).Gives s R := by
  rw [Gives, Ends, perform_ofExcept]
  exact h

theorem mapFailure {g : Failure → Failure} (h : a.Gives s R) : (a.mapFailure g).Gives s R := by
  refine Ends.mapFailure (Ends.mono h fun r t hR x hx => ?_)
  cases r with
  | ok y => exact hR x hx
  | error e => cases hx

theorem check {token : Token σ} : token.check.Gives s fun _ t => t = s := fun _ _ => rfl

theorem guard {token : Token σ} (h : a.Gives s R) : (token.guard a).Gives s R := by
  refine bind check fun _ t ht => ht ▸ ?_
  refine Ends.outcome_bind h fun r t hR => bind (R := fun _ u => u = t) check fun _ u hu => ?_
  exact ofExcept fun x hx => hu ▸ hR x hx

/-- What keeps a view is followed by what depends on the view. -/
theorem keeps_bind {γ : Type} {view : σ → γ} (ha : a.Keeps view)
    (hf : ∀ x t, a.perform s = (.ok x, t) → view t = view s → (f x).Gives t Q) :
    (a >>= f).Gives s Q := by
  rcases h : a.perform s with ⟨e | x, t⟩
  · rw [Gives, Ends, perform_bind_error h]
    rintro _ ⟨⟩
  · rw [Gives, Ends, perform_bind_ok h]
    exact hf x t h (ha.of_perform h)

end Action.Gives

namespace Scripted.Fault

/-- The obstacle leaves a view alone, if the cancellation of calls does. -/
def Obstacle.Keeps (view : σ → γ) (o : Obstacle σ) : Prop :=
  ∀ cancel text, Action.Keeps view cancel → Action.Keeps view (o cancel text)

/-- The obstacle never comes between a transaction and its rollback. -/
def Obstacle.LetsRollBack (o : Obstacle σ) : Prop :=
  ∀ s, ((o (pure ()) rollbackText).perform s).1 = .ok ()

/-- Nothing in the way. -/
def clear : Obstacle σ := fun _ _ => pure ()

theorem clear_keeps (view : σ → γ) : (clear : Obstacle σ).Keeps view :=
  fun _ _ _ => .pure _

/-- A backend with nothing in front of it is the backend itself. -/
theorem behind_clear (b : Backend σ) : behind clear b = b := rfl

/-- Faults leave alone what does not show them. -/
theorem meet_keeps {view : σ → γ} {faults : Part σ (List Fault)}
    (h : ∀ t s, view (faults.set t s) = view s) : Obstacle.Keeps view (meet faults) := by
  intro cancel text hcancel
  refine .bind (.read faults) fun left => ?_
  refine .bind (.write h _) fun _ => ?_
  split
  · exact .pure _
  · exact .throw _
  · exact hcancel

end Scripted.Fault

end SchemaMigration
