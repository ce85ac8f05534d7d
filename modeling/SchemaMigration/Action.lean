import SchemaMigration.Failure
/-! # Actions

An action takes a state to an answer or a failure, and to the state after it. A failure does
not undo what was done before it. Actions are written against one part of a state and run on
the whole of it, so that a connection, a recorder and a history can share a state without
knowing of each other. -/
namespace SchemaMigration

/-- What an operation does to a state. -/
abbrev Action (σ : Type) : Type → Type := ExceptT Failure (StateM σ)

namespace Action

variable {σ α : Type}

/-- The action with a given effect. -/
def ofStep (step : σ → Except Failure α × σ) : Action σ α := fun s => step s

/-- What an action answers in a state, and the state after it. -/
def perform (a : Action σ α) (s : σ) : Except Failure α × σ := a s

@[simp] theorem perform_ofStep (step : σ → Except Failure α × σ) (s : σ) :
    (ofStep step).perform s = step s := rfl

/-- The action that gives an answer found without looking at the state. -/
def ofExcept : Except Failure α → Action σ α
  | .ok a => pure a
  | .error f => throw f

/-- Runs an action and answers with how it ended. -/
def outcome (a : Action σ α) : Action σ (Except Failure α) :=
  ofStep fun s => let (r, s) := a.perform s; (.ok r, s)

/-- Runs an action and gives its failure, if any, another form. -/
def mapFailure (f : Failure → Failure) (a : Action σ α) : Action σ α :=
  ofStep fun s => let (r, s) := a.perform s; (r.mapError f, s)

/-! ### Performing an action step by step -/

variable {β : Type} {a : Action σ α} {f : α → Action σ β} {s t : σ} {x : α} {e : Failure}

@[ext] theorem ext {b : Action σ α} (h : ∀ s, a.perform s = b.perform s) : a = b := funext h

@[simp] theorem perform_pure (x : α) (s : σ) : perform (pure x) s = (.ok x, s) := rfl

@[simp] theorem perform_throw (e : Failure) (s : σ) :
    perform (throw e : Action σ α) s = (.error e, s) := rfl

@[simp] theorem perform_ofExcept (r : Except Failure α) (s : σ) :
    (ofExcept r).perform s = (r, s) := by
  cases r <;> rfl

@[simp] theorem perform_outcome (a : Action σ α) (s : σ) :
    a.outcome.perform s = (.ok (a.perform s).1, (a.perform s).2) := rfl

@[simp] theorem perform_mapFailure (g : Failure → Failure) (a : Action σ α) (s : σ) :
    (a.mapFailure g).perform s = ((a.perform s).1.mapError g, (a.perform s).2) := rfl

theorem mapFailure_id (a : Action σ α) : a.mapFailure id = a := by
  refine ext fun s => ?_
  rw [perform_mapFailure]
  rcases a.perform s with ⟨_ | _, _⟩ <;> rfl

theorem perform_bind (a : Action σ α) (f : α → Action σ β) (s : σ) :
    (a >>= f).perform s =
      match a.perform s with
      | (.ok x, t) => (f x).perform t
      | (.error e, t) => (.error e, t) := by
  unfold perform
  simp only [bind, ExceptT.bind, ExceptT.mk, StateT.bind, ExceptT.bindCont]
  rcases a s with ⟨_ | _, _⟩ <;> rfl

/-- After a first part that succeeds, the rest goes on where it ended. -/
theorem perform_bind_ok (h : a.perform s = (.ok x, t)) :
    (a >>= f).perform s = (f x).perform t := by
  rw [perform_bind, h]

/-- A first part that fails ends the whole. -/
theorem perform_bind_error (h : a.perform s = (.error e, t)) :
    (a >>= f).perform s = (.error e, t) := by
  rw [perform_bind, h]

@[simp] theorem perform_pure_bind (x : α) (f : α → Action σ β) (s : σ) :
    (pure x >>= f).perform s = (f x).perform s := rfl

/-- What an action answers can be changed afterwards. -/
@[simp] theorem perform_bind_pure (a : Action σ α) (g : α → β) (s : σ) :
    (a >>= fun x => pure (g x)).perform s = ((a.perform s).1.map g, (a.perform s).2) := by
  rw [perform_bind]
  rcases a.perform s with ⟨_ | _, _⟩ <;> rfl

@[simp] theorem perform_ofExcept_ok_bind (x : α) (f : α → Action σ β) (s : σ) :
    (ofExcept (.ok x) >>= f).perform s = (f x).perform s := rfl

@[simp] theorem perform_outcome_bind (a : Action σ α) (f : Except Failure α → Action σ β)
    (s : σ) : (a.outcome >>= f).perform s = (f (a.perform s).1).perform (a.perform s).2 :=
  perform_bind_ok (perform_outcome a s)

end Action

/-- A part of a state, which can be looked at and replaced. -/
structure Part (σ τ : Type) where
  get : σ → τ
  set : τ → σ → σ
  get_set : ∀ t s, get (set t s) = t := by intros; rfl
  set_get : ∀ s, set (get s) s = s := by intros; rfl
  set_set : ∀ t u s, set t (set u s) = set t s := by intros; rfl

namespace Part

variable {σ τ υ α : Type}

/-- A state as a part of itself. -/
def whole : Part σ σ := { get := id, set := fun t _ => t }

/-- A part of a part. -/
def inside (p : Part σ τ) (q : Part τ υ) : Part σ υ where
  get s := q.get (p.get s)
  set u s := p.set (q.set u (p.get s)) s
  get_set u s := by rw [p.get_set, q.get_set]
  set_get s := by rw [q.set_get, p.set_get]
  set_set u v s := by rw [p.get_set, q.set_set, p.set_set]

/-- What the part is now. -/
def read (p : Part σ τ) : Action σ τ := .ofStep fun s => (.ok (p.get s), s)

/-- Replaces the part. -/
def write (p : Part σ τ) (t : τ) : Action σ Unit := .ofStep fun s => (.ok (), p.set t s)

/-- Changes the part. -/
def change (p : Part σ τ) (f : τ → τ) : Action σ Unit :=
  .ofStep fun s => (.ok (), p.set (f (p.get s)) s)

/-- Runs an action on the part. -/
def lift (p : Part σ τ) (a : Action τ α) : Action σ α :=
  .ofStep fun s => let (r, t) := a.perform (p.get s); (r, p.set t s)

@[simp] theorem perform_read (p : Part σ τ) (s : σ) : p.read.perform s = (.ok (p.get s), s) := rfl

@[simp] theorem perform_write (p : Part σ τ) (t : τ) (s : σ) :
    (p.write t).perform s = (.ok (), p.set t s) := rfl

@[simp] theorem perform_change (p : Part σ τ) (f : τ → τ) (s : σ) :
    (p.change f).perform s = (.ok (), p.set (f (p.get s)) s) := rfl

@[simp] theorem perform_lift (p : Part σ τ) (a : Action τ α) (s : σ) :
    (p.lift a).perform s = ((a.perform (p.get s)).1, p.set (a.perform (p.get s)).2 s) := rfl

end Part

end SchemaMigration
