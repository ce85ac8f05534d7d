import SchemaMigration.Action
/-! # Trying again

A call that fails is made again, after a warning and a pause, until it succeeds or the attempts
are used up. Attempts are numbered from one, and their numbers have 32 bits. -/
namespace SchemaMigration.Retry

variable {σ α : Type}

/-- The pause between two attempts to connect, in milliseconds. -/
def standardDelay : Nat := 1000

/-- What is said of an attempt that failed when another one follows. -/
structure Warning where
  attempt : Int32
  limit : Int32
  failure : Failure
  deriving Repr

/-- The wording of a warning. -/
def Warning.message (w : Warning) : String :=
  s!"connection attempt failed attempt={w.attempt} max_attempts={w.limit} error="
    ++ w.failure.message

/-- What goes on between two attempts: somebody hears the warning, and time passes. -/
structure Surroundings (σ : Type) where
  warn : Warning → Action σ Unit
  /-- Lets so many milliseconds pass. -/
  sleep : Nat → Action σ Unit

/-- A number below another one of 32 bits has a successor of 32 bits. -/
theorem toInt_succ {number limit : Int32} (h : number < limit) :
    (number + 1).toInt = number.toInt + 1 := by
  have hlow := number.le_toInt
  have hlimit := limit.toInt_lt
  rw [Int32.lt_iff_toInt_lt] at h
  rw [Int32.toInt_add, Int32.toInt_one, Int.bmod_eq_of_le] <;> omega

/-- Makes a call as the attempt with a number, and as further ones while the number is below the
limit. The last failure counts. -/
def attemptsFrom (w : Surroundings σ) (number limit : Int32) (delay : Nat) (call : Action σ α) :
    Action σ α := do
  match ← call.outcome with
  | .ok a => return a
  | .error f =>
    if _h : limit ≤ number then throw f
    else
      w.warn ⟨number, limit, f⟩
      w.sleep delay
      attemptsFrom w (number + 1) limit delay call
termination_by (limit.toInt - number.toInt).toNat
decreasing_by
  have hlt : number < limit := Int32.not_le.mp _h
  have hsucc := toInt_succ hlt
  rw [Int32.lt_iff_toInt_lt] at hlt
  omega

/-! ### One attempt -/

variable {w : Surroundings σ} {number limit : Int32} {delay : Nat} {call : Action σ α}
variable {s t u v : σ} {x : α} {f : Failure}

/-- An attempt that succeeds is the last one. -/
theorem attemptsFrom_ok (hcall : call.perform s = (.ok x, t)) :
    (attemptsFrom w number limit delay call).perform s = (.ok x, t) := by
  rw [attemptsFrom, Action.perform_outcome_bind, hcall, Action.perform_pure]

/-- An attempt at the limit is the last one, even if it fails. -/
theorem attemptsFrom_last (hcall : call.perform s = (.error f, t)) (hlimit : limit ≤ number) :
    (attemptsFrom w number limit delay call).perform s = (.error f, t) := by
  rw [attemptsFrom, Action.perform_outcome_bind, hcall]
  simp only [hlimit, ↓reduceDIte, Action.perform_throw]

/-- An attempt that fails below the limit is followed by a warning, a pause and the next one. -/
theorem attemptsFrom_next (hcall : call.perform s = (.error f, t)) (hnumber : number < limit)
    (hwarn : (w.warn ⟨number, limit, f⟩).perform t = (.ok (), u))
    (hsleep : (w.sleep delay).perform u = (.ok (), v)) :
    (attemptsFrom w number limit delay call).perform s =
      (attemptsFrom w (number + 1) limit delay call).perform v := by
  rw [attemptsFrom, Action.perform_outcome_bind, hcall]
  simp only [Int32.not_le.mpr hnumber, ↓reduceDIte]
  rw [Action.perform_bind_ok hwarn, Action.perform_bind_ok hsleep]

/-! ### Bounded attempts -/

/-- Makes a call up to so many times, and at least once. -/
def run (w : Surroundings σ) (attempts : Int32) (delay : Nat) (call : Action σ α) : Action σ α :=
  attemptsFrom w 1 (max attempts 1) delay call

theorem toInt_limit (attempts : Int32) : (max attempts 1).toInt = max 1 attempts.toInt := by
  have hmax : max attempts 1 = if attempts ≤ 1 then 1 else attempts := rfl
  rw [hmax]
  by_cases h : attempts ≤ 1
  · rw [if_pos h, Int32.toInt_one]
    rw [Int32.le_iff_toInt_le, Int32.toInt_one] at h
    omega
  · rw [if_neg h]
    rw [Int32.le_iff_toInt_le, Int32.toInt_one] at h
    omega

end SchemaMigration.Retry
