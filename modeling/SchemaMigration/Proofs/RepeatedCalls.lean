import Mathlib.Data.List.Count
import SchemaMigration.Retry
/-! # How often a call is made again

A call whose outcomes form a fixed endless sequence is made again on a record of what goes on:
calls and pauses in their order, and the warnings (`Record`).  The run stops at the first success
or at the limit, whichever is first; there is a pause between two calls and none behind the last
one, and the outcome of the last call is that of the run.  The warnings show the counter of the
attempts, which stays below the limit of 32 bits wherever one is added to it (`run_calls`). -/
namespace SchemaMigration.Retry

variable {α : Type}

/-! ### A record of calls and pauses -/

/-- What is seen of repeated calls. -/
inductive Event where
  | called
  | slept (milliseconds : Nat)
  deriving DecidableEq, Repr

/-- What has gone on so far. -/
structure Record where
  events : List Event
  warnings : List Warning

namespace Record

/-- The record before the first call. -/
def empty : Record := ⟨[], []⟩

/-- How often the call has been made. -/
def calls (r : Record) : Nat := r.events.count .called

/-- Warnings and pauses are recorded. -/
def surroundings : Surroundings Record where
  warn w := .ofStep fun r => (.ok (), { r with warnings := r.warnings ++ [w] })
  sleep ms := .ofStep fun r => (.ok (), { r with events := r.events ++ [.slept ms] })

/-- A call that is recorded; it ends each time with the next one of its outcomes. -/
def call (outcomes : Nat → Except Failure α) : Action Record α :=
  .ofStep fun r => (outcomes r.calls, { r with events := r.events ++ [.called] })

end Record

/-- So many calls, with a pause between each two of them. -/
def spaced (delay calls : Nat) : List Event :=
  (List.replicate calls Event.called).intersperse (.slept delay)

theorem spaced_one (delay : Nat) : spaced delay 1 = [.called] := rfl

theorem spaced_succ (delay n : Nat) :
    spaced delay (n + 2) = .called :: .slept delay :: spaced delay (n + 1) := rfl

theorem count_called_spaced (delay n : Nat) : (spaced delay (n + 1)).count .called = n + 1 := by
  induction n with
  | zero => rfl
  | succ n ih =>
    rw [spaced_succ, List.count_cons_self, List.count_cons_of_ne (by simp), ih]

theorem count_slept_spaced (delay n : Nat) :
    (spaced delay (n + 1)).count (.slept delay) = n := by
  induction n with
  | zero => rfl
  | succ n ih =>
    rw [spaced_succ, List.count_cons_of_ne (by simp), List.count_cons_self, ih]

/-! ### Where the calls end -/

/-- Of calls that may be made up to a limit, the one with the index `last` is the first after
`first` that ends them: it succeeds, or there may be no further one. -/
structure EndsAt (outcomes : Nat → Except Failure α) (limit first last : Nat) : Prop where
  le : first ≤ last
  lt : last < limit
  failed : ∀ i, first ≤ i → i < last → (outcomes i).isOk = false
  ended : (outcomes last).isOk = true ∨ last + 1 = limit

/-- The numbers of warnings ascend by one from a first number, each is below the limit, and each
warning is about the outcome of its attempt. -/
def Numbered (outcomes : Nat → Except Failure α) (limit : Int32) (first : Nat)
    (warnings : List Warning) : Prop :=
  ∀ (i : Nat) (h : i < warnings.length),
    (warnings[i].attempt.toInt = first + i + 1 ∧ warnings[i].attempt < limit ∧
      warnings[i].limit = limit) ∧ outcomes (first + i) = .error warnings[i].failure

theorem Numbered.cons {outcomes : Nat → Except Failure α} {limit : Int32} {first : Nat}
    {w : Warning} {warnings : List Warning} (hattempt : w.attempt.toInt = first + 1)
    (hlt : w.attempt < limit) (hlimit : w.limit = limit)
    (hfailed : outcomes first = .error w.failure)
    (h : Numbered outcomes limit (first + 1) warnings) :
    Numbered outcomes limit first (w :: warnings) := by
  intro i hi
  cases i with
  | zero => exact ⟨⟨by simpa using hattempt, hlt, hlimit⟩, hfailed⟩
  | succ i =>
    obtain ⟨⟨hnumber, hbelow⟩, houtcome⟩ := h i (Nat.lt_of_succ_lt_succ hi)
    have hindex : first + (i + 1) = first + 1 + i := by omega
    simp only [List.getElem_cons_succ]
    refine ⟨⟨?_, hbelow⟩, hindex ▸ houtcome⟩
    rw [hnumber]
    push_cast
    omega

theorem EndsAt.single {outcomes : Nat → Except Failure α} {limit first : Nat} (hlt : first < limit)
    (hended : (outcomes first).isOk = true ∨ first + 1 = limit) :
    EndsAt outcomes limit first first :=
  ⟨Nat.le_refl _, hlt, fun _ hle hlt' => absurd hlt' (Nat.not_lt.mpr hle), hended⟩

/-- Calls whose first one fails end where the further ones end. -/
theorem EndsAt.of_failed {outcomes : Nat → Except Failure α} {limit first last : Nat}
    (hfailed : (outcomes first).isOk = false) (h : EndsAt outcomes limit (first + 1) last) :
    EndsAt outcomes limit first last where
  le := Nat.le_of_succ_le h.le
  lt := h.lt
  failed i hle hlt := by
    rcases Nat.eq_or_lt_of_le hle with rfl | hlt'
    · exact hfailed
    · exact h.failed i hlt' hlt
  ended := h.ended

/-! ### From one attempt to the last one -/

/-- What the attempts from the one with a number on leave behind, up to the call with the index
`last`: calls with pauses between them, and a warning for each but the last. -/
structure Course (outcomes : Nat → Except Failure α) (delay : Nat) (number limit : Int32)
    (r : Record) (last : Nat) (warnings : List Warning) : Prop where
  perform : (attemptsFrom Record.surroundings number limit delay (Record.call outcomes)).perform r =
    (outcomes last, ⟨r.events ++ spaced delay (last - r.calls + 1), r.warnings ++ warnings⟩)
  length : warnings.length = last - r.calls
  numbered : Numbered outcomes limit r.calls warnings

section

variable {outcomes : Nat → Except Failure α} {delay : Nat} {number limit : Int32} {r : Record}

theorem Record.perform_call (outcomes : Nat → Except Failure α) (r : Record) :
    (Record.call outcomes).perform r =
      (outcomes r.calls, { r with events := r.events ++ [.called] }) := rfl

theorem Course.single
    (h : (attemptsFrom Record.surroundings number limit delay (Record.call outcomes)).perform r =
      (outcomes r.calls, { r with events := r.events ++ [.called] })) :
    Course outcomes delay number limit r r.calls [] where
  perform := by rw [h, Nat.sub_self, spaced_one, List.append_nil]
  length := (Nat.sub_self _).symm
  numbered := nofun

/-- The record after a call that failed and the pause behind it. -/
def Record.waited (r : Record) (delay : Nat) (w : Warning) : Record :=
  ⟨r.events ++ [.called] ++ [.slept delay], r.warnings ++ [w]⟩

theorem Record.calls_waited (r : Record) (delay : Nat) (w : Warning) :
    (r.waited delay w).calls = r.calls + 1 := by
  simp [waited, calls, List.count_append]

/-- A call that fails below the limit goes in front of what the next attempts leave behind. -/
theorem Course.next {f : Failure} {last : Nat} {warnings : List Warning}
    (hnumber : number.toInt = r.calls + 1) (hlt : number < limit)
    (houtcome : outcomes r.calls = .error f) (hlast : r.calls + 1 ≤ last)
    (h : Course outcomes delay (number + 1) limit (r.waited delay ⟨number, limit, f⟩) last
      warnings) :
    Course outcomes delay number limit r last (⟨number, limit, f⟩ :: warnings) := by
  have hcall := Record.perform_call outcomes r
  rw [houtcome] at hcall
  obtain ⟨hperform, hlength, hnumbered⟩ := h
  rw [Record.calls_waited] at hperform hlength hnumbered
  refine ⟨?_, ?_, hnumbered.cons hnumber hlt rfl houtcome⟩
  · have hspaced : last - r.calls + 1 = last - (r.calls + 1) + 2 := by omega
    rw [attemptsFrom_next hcall hlt rfl rfl]
    refine hperform.trans ?_
    rw [hspaced, spaced_succ, Record.waited, List.append_assoc, List.append_assoc,
      List.append_assoc]
    rfl
  · rw [List.length_cons, hlength]
    omega

end

/-- From any attempt on, the calls go on to the first success or to the limit.  The induction is on
the number of attempts that may follow. -/
theorem attemptsFrom_calls (outcomes : Nat → Except Failure α) (delay further : Nat)
    {limit : Int32} (number : Int32) (r : Record) (hnumber : number.toInt = r.calls + 1)
    (hlimit : limit.toInt = number.toInt + further) :
    ∃ last warnings, EndsAt outcomes (r.calls + 1 + further) r.calls last ∧
      Course outcomes delay number limit r last warnings := by
  induction further generalizing number r with
  | zero =>
    refine ⟨r.calls, [], .single (by omega) (.inr rfl), .single ?_⟩
    have hcall := Record.perform_call outcomes r
    cases houtcome : outcomes r.calls with
    | ok x => exact attemptsFrom_ok (houtcome ▸ hcall)
    | error f =>
      refine attemptsFrom_last (houtcome ▸ hcall) ?_
      rw [Int32.le_iff_toInt_le]
      omega
  | succ further ih =>
    cases houtcome : outcomes r.calls with
    | ok x =>
      have hcall := Record.perform_call outcomes r
      refine ⟨r.calls, [], .single (by omega) (.inl (by rw [houtcome]; rfl)), .single ?_⟩
      rw [houtcome]
      exact attemptsFrom_ok (houtcome ▸ hcall)
    | error f =>
      have hlt : number < limit := by
        rw [Int32.lt_iff_toInt_lt]
        omega
      have hsucc := toInt_succ hlt
      have hcalls := r.calls_waited delay ⟨number, limit, f⟩
      obtain ⟨last, warnings, hends, hcourse⟩ :=
        ih (number + 1) (r.waited delay ⟨number, limit, f⟩) (by omega) (by omega)
      have hroom : r.calls + 1 + (further + 1) = r.calls + 1 + 1 + further := by omega
      rw [hcalls] at hends
      rw [hroom]
      exact ⟨last, _, hends.of_failed (by rw [houtcome]; rfl),
        hcourse.next hnumber hlt houtcome hends.le⟩

/-! ### The smaller of the limit and the first success -/

/-- The first success is the outcome with a position, counted from one. -/
structure FirstSuccess (outcomes : Nat → Except Failure α) (position : Nat) : Prop where
  pos : 0 < position
  ok : (outcomes (position - 1)).isOk = true
  failed : ∀ i, i + 1 < position → (outcomes i).isOk = false

/-- The number of calls is the smaller of the limit and the position of the first success. -/
theorem EndsAt.calls_eq {outcomes : Nat → Except Failure α} {limit last position : Nat}
    (h : EndsAt outcomes limit 0 last) (hfirst : FirstSuccess outcomes position) :
    last + 1 = min limit position := by
  have hlt := h.lt
  have hpos := hfirst.pos
  -- the calls go at most to the first success
  have hle : last + 1 ≤ position := by
    by_contra hgt
    have hfailed := h.failed (position - 1) (Nat.zero_le _) (by omega)
    rw [hfirst.ok] at hfailed
    cases hfailed
  rcases h.ended with hok | hlimit
  · have hge : ¬last + 1 < position := by
      intro hbefore
      have hfailed := hfirst.failed last hbefore
      rw [hok] at hfailed
      cases hfailed
    omega
  · omega

theorem EndsAt.calls_of_failed {outcomes : Nat → Except Failure α} {limit last : Nat}
    (h : EndsAt outcomes limit 0 last) (hfailed : ∀ i, (outcomes i).isOk = false) :
    last + 1 = limit := by
  rcases h.ended with hok | hlimit
  · rw [hfailed last] at hok
    cases hok
  · exact hlimit

/-- **Calls, pauses and the counter.**  For every number of attempts of 32 bits, every pause and
every endless sequence of outcomes, let `m` be the number of attempts, but at least one.  Then the
number `c` of calls is the smaller of `m` and the position of the first success.  Calls and pauses
alternate, from the first call to the last one, so that there are `c - 1` pauses of the given
length.  The run ends as its last call does.  Each other call is followed by a warning with its
number, and the number that is one more is a number of 32 bits as well. -/
theorem run_calls (attempts : Int32) (delay : Nat) (outcomes : Nat → Except Failure α) :
    let m := (max 1 attempts.toInt).toNat
    ∃ c warnings, (∀ p, FirstSuccess outcomes p → c = min m p) ∧
      ((∀ i, (outcomes i).isOk = false) → c = m) ∧
      (run Record.surroundings attempts delay (Record.call outcomes)).perform .empty =
        (outcomes (c - 1), ⟨spaced delay c, warnings⟩) ∧
      (spaced delay c).count .called = c ∧ (spaced delay c).count (.slept delay) = c - 1 ∧
      warnings.length = c - 1 ∧
      ∀ (i : Nat) (h : i < warnings.length),
        outcomes i = .error warnings[i].failure ∧ warnings[i].limit.toInt = m ∧
          warnings[i].attempt.toInt = i + 1 ∧ (warnings[i].attempt + 1).toInt = i + 2 := by
  intro m
  have hone : (1 : Int32).toInt = ((Record.empty.calls : Nat) : Int) + 1 := rfl
  have hlimit : (max attempts 1).toInt = (1 : Int32).toInt + (m - 1 : Nat) := by
    rw [toInt_limit, Int32.toInt_one]
    omega
  obtain ⟨last, warnings, hends, hperform, hlength, hnumbered⟩ :=
    attemptsFrom_calls outcomes delay (m - 1) 1 .empty hone hlimit
  have hm : Record.empty.calls + 1 + (m - 1) = m := by
    show 0 + 1 + (m - 1) = m
    omega
  rw [hm] at hends
  refine ⟨last + 1, warnings, fun p hp => hends.calls_eq hp, hends.calls_of_failed, hperform,
    count_called_spaced _ _, count_slept_spaced _ _, hlength, fun i hi => ?_⟩
  obtain ⟨⟨hattempt, hbelow, hwarned⟩, houtcome⟩ := hnumbered i hi
  have hfirst : ((Record.empty.calls : Nat) : Int) = 0 := rfl
  rw [hfirst, Int.zero_add] at hattempt
  refine ⟨?_, ?_, hattempt, ?_⟩
  · rw [← houtcome]
    exact congrArg outcomes (Nat.zero_add i).symm
  · rw [hwarned, toInt_limit]
    omega
  · rw [toInt_succ hbelow, hattempt]
    omega

/-- As many attempts as there are numbers for, of which the third succeeds. -/
theorem run_calls_third :
    let outcomes : Nat → Except Failure Nat := fun i => if i < 2 then .error .noRows else .ok i
    ∃ warnings,
      (run Record.surroundings Int32.maxValue 1000 (Record.call outcomes)).perform .empty =
        (.ok 2, ⟨[.called, .slept 1000, .called, .slept 1000, .called], warnings⟩) ∧
      warnings.length = 2 := by
  intro outcomes
  have hfirst : FirstSuccess outcomes 3 := by
    refine ⟨by decide, rfl, fun i hi => ?_⟩
    have hlt : i < 2 := by omega
    show (if i < 2 then (.error .noRows : Except Failure Nat) else .ok i).isOk = false
    rw [if_pos hlt]
    rfl
  obtain ⟨c, warnings, hcalls, -, hperform, -, -, hlength, -⟩ :=
    run_calls Int32.maxValue 1000 outcomes
  have hc : c = 3 := (hcalls 3 hfirst).trans (by decide)
  subst hc
  exact ⟨warnings, hperform, hlength⟩

end SchemaMigration.Retry
