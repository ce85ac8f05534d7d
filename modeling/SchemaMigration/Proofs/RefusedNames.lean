import SchemaMigration.Proofs.SourceNames
import SchemaMigration.Scripted.State
/-! # Connecting to a name that is refused

A data source name that cannot be read is refused again in each attempt to connect: nothing tells
the failure of a name from that of a server.  The attempts change nothing but the time, which goes
on by a pause between each two of them, and what is written, which is a warning for each attempt
but the last (`connect_of_refused`). -/
namespace SchemaMigration

/-! ### Why a name is refused -/

namespace Dsn

/-- The failure says that the name is no name, or that its driver is none. -/
def IsRefusal (f : Failure) : Prop :=
  (∃ fault, f = .invalidDsn fault) ∨ ∃ name, f = .unsupportedDriver name

theorem isRefusal_invalidDsn (fault : DsnFault) : IsRefusal (.invalidDsn fault) :=
  .inl ⟨fault, rfl⟩

theorem isRefusal_ofName {name : String} {f : Failure} (h : Driver.ofName name = .error f) :
    IsRefusal f := by
  unfold Driver.ofName at h
  simp only at h
  repeat' split at h
  all_goals cases h
  exact .inr ⟨_, rfl⟩

/-- A sequence fails with a refusal if each of its parts does. -/
theorem isRefusal_bind {α β : Type} {r : Except Failure α} {g : α → Except Failure β} {f : Failure}
    (hr : ∀ e, r = .error e → IsRefusal e) (hg : ∀ x e, g x = .error e → IsRefusal e)
    (h : r.bind g = .error f) : IsRefusal f := by
  cases r with
  | error e =>
    cases h
    exact hr _ rfl
  | ok x => exact hg x f h

theorem isRefusal_readCredential {cs : List Char} {f : Failure}
    (h : readCredential cs = .error f) : IsRefusal f := by
  unfold readCredential at h
  split at h
  · cases h
  · cases h
    exact isRefusal_invalidDsn _

theorem isRefusal_readCredentials {cs : List Char} {f : Failure}
    (h : readCredentials cs = .error f) : IsRefusal f := by
  unfold readCredentials at h
  split at h
  · refine isRefusal_bind (fun _ => isRefusal_readCredential) (fun _ _ h' => ?_) h
    exact isRefusal_bind (fun _ => isRefusal_readCredential) (fun _ _ h'' => by cases h'') h'
  · exact isRefusal_bind (fun _ => isRefusal_readCredential) (fun _ _ h' => by cases h') h

/-- A name that cannot be read is refused as a name or for its driver. -/
theorem isRefusal_parse {raw : String} {f : Failure} (h : parse raw = .error f) : IsRefusal f := by
  by_cases hcut : ∃ scheme rest, Text.cutAt [':', '/', '/'] raw.toList = some (scheme, rest) ∧
      scheme ≠ []
  · obtain ⟨scheme, rest, hcut, hnamed⟩ := hcut
    rw [parse_of_cut hcut hnamed] at h
    refine isRefusal_bind (fun _ => isRefusal_ofName) (fun _ _ hdriver => ?_) h
    refine isRefusal_bind (fun _ => isRefusal_readCredentials) (fun _ _ hcredentials => ?_) hdriver
    split at hcredentials
    split at hcredentials
    · cases hcredentials
      exact isRefusal_invalidDsn _
    · cases hcredentials
  · rw [parse] at h
    split at h
    · cases h
      exact isRefusal_invalidDsn _
    · cases hparts : Text.cutAt [':', '/', '/'] raw.toList with
      | none =>
        rw [hparts] at h
        cases h
        exact isRefusal_invalidDsn _
      | some parts =>
        obtain ⟨scheme, rest⟩ := parts
        obtain rfl : scheme = [] := Classical.byContradiction fun hne =>
          hcut ⟨scheme, rest, hparts, hne⟩
        rw [hparts] at h
        cases h
        exact isRefusal_invalidDsn _

end Dsn

/-! ### Attempts to connect -/

namespace Scripted.State

open Retry

variable {raw : String} {f : Failure}

/-- An attempt with a name that is refused fails and changes nothing. -/
theorem perform_openReached_of_refused (h : Dsn.parse raw = .error f) (s : State) :
    (openReached raw).perform s = (.error f, s) := by
  have hopen : (openConnection raw).perform s = (.error f, s) := by
    rw [openConnection, h]
    rfl
  rw [openReached, Action.perform_bind_error hopen]

/-- The state after warnings that were each followed by a pause. -/
def waited (s : State) (warnings : List Warning) : State :=
  { s with
    slept := s.slept + warnings.length * standardDelay
    terminal := { s.terminal with
      written := s.terminal.written ++ warnings.map fun w => .warning w.message } }

/-- One warning and the pause behind it. -/
theorem perform_between (s : State) (w : Warning) :
    ∃ t, (betweenAttempts.warn w).perform s = (.ok (), t) ∧
      (betweenAttempts.sleep standardDelay).perform t = (.ok (), s.waited [w]) := by
  refine ⟨_, rfl, ?_⟩
  rw [waited, List.length_singleton, Nat.one_mul]
  rfl

theorem waited_nil (s : State) : s.waited [] = s := by
  rw [waited, List.length_nil, Nat.zero_mul, List.map_nil, List.append_nil]
  rfl

theorem waited_cons (s : State) (w : Warning) (warnings : List Warning) :
    (s.waited [w]).waited warnings = s.waited (w :: warnings) := by
  have hslept : s.slept + 1 * standardDelay + warnings.length * standardDelay =
      s.slept + (w :: warnings).length * standardDelay := by
    rw [List.length_cons, Nat.add_assoc, ← Nat.add_mul, Nat.add_comm 1]
  have hwritten : s.terminal.written ++ [.warning w.message] ++
      (warnings.map fun w => .warning w.message) =
        s.terminal.written ++ (w :: warnings).map fun w => .warning w.message := by
    rw [List.map_cons, List.append_assoc, List.singleton_append]
  simp only [waited, List.length_singleton, List.map_cons, List.map_nil]
  rw [hslept, hwritten]
  rfl

/-- From any attempt on, a name that is refused is refused in each one up to the limit.  The
induction is on the number of attempts that follow. -/
theorem attemptsFrom_of_refused (h : Dsn.parse raw = .error f) (further : Nat) {limit : Int32}
    (number : Int32) (s : State) (hlimit : limit.toInt = number.toInt + further) :
    ∃ warnings, warnings.length = further ∧ (∀ w ∈ warnings, w.failure = f) ∧
      (attemptsFrom betweenAttempts number limit standardDelay (openReached raw)).perform s =
        (.error f, s.waited warnings) := by
  have hcall := perform_openReached_of_refused h s
  induction further generalizing number s with
  | zero =>
    refine ⟨[], rfl, nofun, ?_⟩
    have hle : limit ≤ number := by
      rw [Int32.le_iff_toInt_le]
      omega
    rw [attemptsFrom_last hcall hle, waited_nil]
  | succ further ih =>
    have hlt : number < limit := by
      rw [Int32.lt_iff_toInt_lt]
      omega
    have hsucc := toInt_succ hlt
    obtain ⟨t, hwarn, hsleep⟩ := s.perform_between ⟨number, limit, f⟩
    obtain ⟨warnings, hlength, hfailure, hperform⟩ := ih (number + 1)
      (s.waited [⟨number, limit, f⟩]) (by omega) (perform_openReached_of_refused h _)
    refine ⟨⟨number, limit, f⟩ :: warnings, by rw [List.length_cons, hlength], ?_, ?_⟩
    · intro w hw
      rcases List.mem_cons.mp hw with rfl | hw
      · rfl
      · exact hfailure w hw
    · rw [attemptsFrom_next hcall hlt hwarn hsleep, hperform, waited_cons]

/-- The attempts to connect to a name that is refused: one for each warning, and the last one. -/
theorem connect_waits (h : Dsn.parse raw = .error f) (attempts : Int32) (s : State) :
    ∃ warnings, warnings.length + 1 = (max 1 attempts.toInt).toNat ∧
      (∀ w ∈ warnings, w.failure = f) ∧
      (connect raw attempts).perform s = (.error f, s.waited warnings) := by
  let m := (max 1 attempts.toInt).toNat
  have hlimit : (max attempts 1).toInt = (1 : Int32).toInt + (m - 1 : Nat) := by
    rw [toInt_limit, Int32.toInt_one]
    omega
  obtain ⟨warnings, hlength, hfailure, hperform⟩ := attemptsFrom_of_refused h (m - 1) 1 s hlimit
  exact ⟨warnings, by omega, hfailure, hperform⟩

/-- **A name that is refused is refused again.**  For every name that cannot be read and every
number of attempts of 32 bits, connecting ends with the refusal.  But it is made as often as there
are attempts: one warning and one pause of a second stand between each two of them, and nothing
else changes.  So it ends after a single attempt, without a pause, exactly if at most one attempt
is asked for. -/
theorem connect_of_refused (h : Dsn.parse raw = .error f) (attempts : Int32) (s : State) :
    Dsn.IsRefusal f ∧
    (∃ warnings, warnings.length + 1 = (max 1 attempts.toInt).toNat ∧
      (∀ w ∈ warnings, w.failure = f) ∧
      (connect raw attempts).perform s = (.error f, s.waited warnings)) ∧
    (((connect raw attempts).perform s).2.slept = s.slept ↔ attempts ≤ 1) := by
  obtain ⟨warnings, hlength, hfailure, hperform⟩ := connect_waits h attempts s
  refine ⟨Dsn.isRefusal_parse h, ⟨warnings, hlength, hfailure, hperform⟩, ?_⟩
  have hslept : (s.waited warnings).slept = s.slept + warnings.length * 1000 := rfl
  rw [hperform, hslept, Int32.le_iff_toInt_le, Int32.toInt_one]
  omega

/-- A state without servers and files. -/
def bare : State :=
  .start ⟨false, [], []⟩ ⟨false, [], [], []⟩ ⟨.network, false, [], false, []⟩ .empty

theorem connect_of_refused_thrice :
    Dsn.parse "oracle://db" = .error (.unsupportedDriver "oracle") ∧
      ∃ warnings, warnings.length = 2 ∧
        (connect "oracle://db" 3).perform bare =
          (.error (.unsupportedDriver "oracle"), bare.waited warnings) := by
  have hparse : Dsn.parse "oracle://db" = .error (.unsupportedDriver "oracle") := by rfl
  obtain ⟨-, ⟨warnings, hlength, -, hperform⟩, -⟩ := connect_of_refused hparse 3 bare
  exact ⟨hparse, warnings, Nat.succ.inj hlength, hperform⟩

/-- A text that is no name is read twice, with a pause of a second before the second time. -/
theorem refused_name_read_again :
    Dsn.parse "not a\ndsn" = .error (.invalidDsn (.noScheme "not a\ndsn")) ∧
      ((connect "not a\ndsn" 2).perform bare).2.slept = bare.slept + 1000 := by
  have hparse : Dsn.parse "not a\ndsn" = .error (.invalidDsn (.noScheme "not a\ndsn")) := by rfl
  refine ⟨hparse, ?_⟩
  obtain ⟨warnings, hlength, -, hperform⟩ := connect_waits hparse 2 bare
  have hone : warnings.length = 1 := Nat.succ.inj hlength
  rw [hperform]
  show bare.slept + warnings.length * 1000 = bare.slept + 1000
  rw [hone]

end Scripted.State

end SchemaMigration
