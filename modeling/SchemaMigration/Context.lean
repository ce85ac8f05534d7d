import SchemaMigration.Action
import SchemaMigration.Rows
/-! # Contexts

A context goes along with every call. It holds the token by which the call can be cancelled,
and the transaction that the call belongs to, if there is one. -/
namespace SchemaMigration

variable {σ α : Type}

/-- A signal that a call is to be given up: whether a state shows it, and raising it. -/
structure Token (σ : Type) where
  isRaised : σ → Bool
  raise : σ → σ

namespace Token

/-- The token that nobody raises. -/
def never : Token σ := ⟨fun _ => false, id⟩

/-- The token with a number, in a state with a list of the numbers raised. -/
def numbered (raised : Part σ (List Nat)) (n : Nat) : Token σ where
  isRaised s := (raised.get s).contains n
  raise s := raised.set (n :: raised.get s) s

/-- Fails once the token is raised. -/
def check (t : Token σ) : Action σ Unit :=
  .ofStep fun s => (if t.isRaised s then .error .cancelled else .ok (), s)

@[simp] theorem perform_check (t : Token σ) (s : σ) :
    t.check.perform s = (if t.isRaised s then .error .cancelled else .ok (), s) := rfl

/-- Raises the token. -/
def cancel (t : Token σ) : Action σ Unit := .ofStep fun s => (.ok (), t.raise s)

/-- Runs an action unless the token is raised. If it is raised by the end, the answer is
dropped.

The end is the last look at the token, and after that look the action takes its last part and
answers. A token that is raised during this last part does not stop the answer any more: such a
raise counts as one that comes after the action, so it is not in the state that the action ends in
but in what becomes of that state before the next call. -/
def guard (t : Token σ) (a : Action σ α) : Action σ α := do
  t.check
  let r ← a.outcome
  t.check
  .ofExcept r

/-- A guarded action runs between two looks at the token. -/
theorem perform_guard (t : Token σ) (a : Action σ α) (s : σ) :
    (t.guard a).perform s =
      if t.isRaised s then (.error .cancelled, s)
      else (if t.isRaised (a.perform s).2 then .error .cancelled else (a.perform s).1,
        (a.perform s).2) := by
  rw [guard]
  by_cases h : t.isRaised s
  · rw [if_pos h, Action.perform_bind_error (by rw [perform_check, if_pos h])]
  · rw [if_neg h, Action.perform_bind_ok (by rw [perform_check, if_neg h]),
      Action.perform_outcome_bind]
    by_cases h' : t.isRaised (a.perform s).2
    · rw [if_pos h', Action.perform_bind_error (by rw [perform_check, if_pos h'])]
    · rw [if_neg h', Action.perform_bind_ok (by rw [perform_check, if_neg h']),
        Action.perform_ofExcept]

end Token

/-- An open transaction. Once committed or rolled back, it refuses every call. -/
structure Transaction (σ : Type) where
  /-- Runs a statement that returns rows. -/
  query : Token σ → String → List Value → Action σ Rows
  /-- Runs a statement that returns no rows. -/
  exec : Token σ → String → List Value → Action σ ExecResult
  commit : Action σ Unit
  rollback : Action σ Unit

/-- The token and the transaction that a call goes by. -/
structure Context (σ : Type) where
  token : Token σ
  transaction : Option (Transaction σ)

namespace Context

/-- A context outside any transaction. -/
def ofToken (t : Token σ) : Context σ := ⟨t, none⟩

/-- The context of the calls inside a transaction. -/
def inside (c : Context σ) (t : Transaction σ) : Context σ := { c with transaction := some t }

/-- The written form of a context. -/
def display (c : Context σ) (s : σ) : String :=
  "Context \x7b cancelled: " ++ Value.boolText (c.token.isRaised s) ++ ", in_transaction: "
    ++ Value.boolText c.transaction.isSome ++ " \x7d"

end Context

end SchemaMigration
