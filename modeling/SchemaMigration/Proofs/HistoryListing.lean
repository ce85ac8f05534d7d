import Mathlib.Data.List.Sort
import Mathlib.Data.Multiset.Filter
import Mathlib.Data.String.Basic
import SchemaMigration.Proofs.HistoryLedger
/-! # The listing of a history

A history lists its rows newest first: by time, and among equal times by version.  This order is
total, so the rows have one such listing (`Applied.Newest.eq_of_perm`), and what is newest among
them does not depend on the way in which they are kept.

A history *tracks* its ledger when a bounded listing is the beginning of the whole one and when it
forgets a version by taking its rows away (`History.Tracks`).  A history in memory does
(`Memory.history_tracks`). -/
namespace SchemaMigration

variable {σ : Type}

namespace Applied

/-! ### The order of a listing -/

theorem newer_iff {a b : Applied} :
    a.newer b = true ↔ b.time < a.time ∨ a.time = b.time ∧ b.version < a.version := by
  simp [newer]

theorem not_newer_iff {a b : Applied} :
    b.newer a = false ↔ b.time < a.time ∨ a.time = b.time ∧ b.version ≤ a.version := by
  rw [← Bool.not_eq_true, newer_iff, not_or, not_and, not_lt, not_lt]
  constructor
  · rintro ⟨htime, hversion⟩
    rcases lt_or_eq_of_le htime with hlt | heq
    · exact .inl hlt
    · exact .inr ⟨heq.symm, hversion heq⟩
  · rintro (hlt | ⟨heq, hle⟩)
    · exact ⟨le_of_lt hlt, fun h => absurd h (ne_of_lt hlt)⟩
    · exact ⟨le_of_eq heq.symm, fun _ => hle⟩

theorem not_newer_trans {a b c : Applied} (hab : b.newer a = false) (hbc : c.newer b = false) :
    c.newer a = false := by
  rw [not_newer_iff] at *
  rcases hab with hab | ⟨hab, hab'⟩ <;> rcases hbc with hbc | ⟨hbc, hbc'⟩
  · exact .inl (lt_trans hbc hab)
  · exact .inl (hbc ▸ hab)
  · exact .inl (hab ▸ hbc)
  · exact .inr ⟨hab.trans hbc, le_trans hbc' hab'⟩

/-- One of two rows is not newer than the other. -/
theorem not_newer_total (a b : Applied) : a.newer b = false ∨ b.newer a = false := by
  rw [not_newer_iff, not_newer_iff]
  rcases lt_trichotomy a.time b.time with hlt | heq | hlt
  · exact .inl (.inl hlt)
  · rcases le_total a.version b.version with hle | hle
    · exact .inl (.inr ⟨heq.symm, hle⟩)
    · exact .inr (.inr ⟨heq, hle⟩)
  · exact .inr (.inl hlt)

theorem not_newer_antisymm {a b : Applied} (hab : b.newer a = false) (hba : a.newer b = false) :
    a = b := by
  rw [not_newer_iff] at *
  rcases hab with hab | ⟨hab, hab'⟩ <;> rcases hba with hba | ⟨hba, hba'⟩
  · exact absurd hba (lt_asymm hab)
  · exact absurd hba (ne_of_lt hab)
  · exact absurd hab (ne_of_lt hba)
  · obtain ⟨version, time⟩ := a
    obtain rfl : time = b.time := hab
    obtain rfl : version = b.version := le_antisymm hba' hab'
    rfl

/-- Newest first: no row is newer than one before it. -/
def Newest (rows : List Applied) : Prop := rows.Pairwise fun a b => b.newer a = false

instance (rows : List Applied) : Decidable (Newest rows) :=
  inferInstanceAs (Decidable (rows.Pairwise fun a b => b.newer a = false))

theorem newest_newestFirst (rows : List Applied) : Newest (newestFirst rows) := by
  have hsorted : (newestFirst rows).Pairwise fun a b => (!b.newer a) = true := by
    refine List.pairwise_mergeSort (fun a b c hab hbc => ?_) (fun a b => ?_) rows
    · simpa using not_newer_trans (by simpa using hab) (by simpa using hbc)
    · simpa [or_comm] using not_newer_total a b
  exact hsorted.imp fun h => by simpa using h

/-- Rows have only one listing. -/
theorem Newest.eq_of_coe_eq {xs ys : List Applied} (hx : Newest xs) (hy : Newest ys)
    (h : (xs : Multiset Applied) = ys) : xs = ys :=
  (Multiset.coe_eq_coe.mp h).eq_of_pairwise (fun _ _ _ _ => not_newer_antisymm) hx hy

/-- The listing can be made by insertion, which evaluates. -/
theorem newestFirst_eq_insertionSort (rows : List Applied) :
    newestFirst rows = rows.insertionSort fun a b => b.newer a = false := by
  have htotal : Std.Total fun a b : Applied => b.newer a = false :=
    ⟨fun a b => (not_newer_total a b).symm⟩
  have htrans : IsTrans Applied fun a b => b.newer a = false :=
    ⟨fun _ _ _ hab hbc => not_newer_trans hab hbc⟩
  have hsorted : Newest (rows.insertionSort fun a b => b.newer a = false) :=
    List.pairwise_insertionSort _ rows
  have hperm : (newestFirst rows).Perm (rows.insertionSort fun a b => b.newer a = false) :=
    (List.mergeSort_perm _ _).trans (List.perm_insertionSort _ rows).symm
  exact (newest_newestFirst rows).eq_of_coe_eq hsorted (Multiset.coe_eq_coe.mpr hperm)

/-- Whatever rows there are, they have a listing. -/
theorem exists_listing (rows : Multiset Applied) :
    ∃ listing : List Applied, (listing : Multiset Applied) = rows ∧ Newest listing := by
  induction rows using Quot.inductionOn with
  | h rows =>
    exact ⟨newestFirst rows, Multiset.coe_eq_coe.mpr (List.mergeSort_perm _ _),
      newest_newestFirst rows⟩

/-- Without the versions of the first rows, the other rows are left, if each version is there
once. -/
theorem filter_append_versions {first others : List Applied}
    (h : ((first ++ others).map (·.version)).Nodup) :
    (first ++ others).filter (fun a => decide (a.version ∉ first.map (·.version))) = others := by
  rw [List.map_append] at h
  have hfirst : first.filter (fun a => decide (a.version ∉ first.map (·.version))) = [] :=
    List.filter_eq_nil_iff.mpr fun a ha => by
      rw [decide_eq_true_eq, not_not]
      exact List.mem_map_of_mem ha
  have hothers : others.filter (fun a => decide (a.version ∉ first.map (·.version))) = others :=
    List.filter_eq_self.mpr fun a ha => decide_eq_true fun hmem =>
      (List.nodup_append.mp h).2.2 _ hmem _ (List.mem_map_of_mem ha) rfl
  rw [List.filter_append, hfirst, hothers, List.nil_append]

/-- A limit that is not zero keeps the first rows. -/
theorem atMost_toNumber {limit : Limit} (h : limit ≠ .count 0) (rows : List Applied) :
    atMost limit.toNumber rows = limit.truncate rows := by
  cases limit with
  | all => rfl
  | count n => exact if_neg fun hn => h (congrArg Limit.count hn)

/-- What a bounded listing shows are the first rows. -/
theorem atMost_eq_take (limit : Nat) (rows : List Applied) :
    atMost limit rows = rows.take (atMost limit rows).length := by
  rw [atMost]
  split
  · exact List.take_length.symm
  · rw [List.length_take, ← List.take_eq_take_min]

theorem atMost_append_drop (limit : Nat) (rows : List Applied) :
    atMost limit rows ++ rows.drop (atMost limit rows).length = rows := by
  have hparts := List.take_append_drop (atMost limit rows).length rows
  rwa [← atMost_eq_take] at hparts

end Applied

/-! ### Histories that track a ledger -/

/-- What the removal of a version comes to: its rows are gone, or nothing. -/
def Ledger.Removes (l : Ledger σ) (version : String) (s : σ) (r : Except Failure Unit) (t : σ) :
    Prop :=
  l.sent t = l.sent s ∧ match r with
    | .ok _ => l.rows t = (l.rows s).filter (·.version ≠ version)
    | .error _ => l.rows t = l.rows s

/-- What a history does to its ledger when it lists and forgets, in a context that it serves. -/
structure History.Tracks (h : History σ) (l : Ledger σ) (serves : Context σ → Prop) : Prop where
  list : ∀ ctx, serves ctx → ∀ limit s, (h.list ctx limit).Ends s fun r t => l.view t = l.view s ∧
    ∀ applied, r = .ok applied → ∃ rows : List Applied, Applied.Newest rows ∧
      (rows : Multiset Applied) = l.rows s ∧ applied = Applied.atMost limit rows
  remove : ∀ ctx, serves ctx → ∀ version s,
    (h.remove ctx version).Ends s (l.Removes version s)

/-- What a history shows in a state: its rows newest first, each version once, and none if it
answers that there is no table. -/
structure History.Shows (h : History σ) (l : Ledger σ) (ctx : Context σ) (s : σ)
    (listing : List Applied) : Prop where
  rows : (listing : Multiset Applied) = l.rows s
  newest : Applied.Newest listing
  distinct : (listing.map (·.version)).Nodup
  table : ((h.isCreated ctx).perform s).1 = .ok false → listing = []

/-- A history in memory tracks its ledger. -/
theorem Memory.history_tracks {place : Part σ Memory} {heard : Part σ (List String)}
    (hheard : ∀ m s, heard.get (place.set m s) = heard.get s) (c : Connection σ)
    (alwaysSafe : Bool) (broken : List String) (serves : Context σ → Prop) :
    (Memory.history place c alwaysSafe broken).Tracks (Memory.ledger place heard) serves where
  list ctx _ limit s := by
    refine ⟨rfl, fun applied h => ⟨(place.get s).listing, Applied.newest_newestFirst _, ?_, ?_⟩⟩
    · exact Multiset.coe_eq_coe.mpr (List.mergeSort_perm _ _)
    · cases h
      rfl
  remove ctx _ version s := by
    refine .bind (R := fun _ t => t = s) rfl (fun _ _ h => h ▸ ⟨rfl, rfl⟩) fun _ t ht => ?_
    refine .bind (R := fun _ u => u = s) (ht ▸ checkWritable_ends broken version t)
      (fun _ _ h => h ▸ ⟨rfl, rfl⟩) fun _ u hu => ?_
    rw [hu]
    refine ⟨hheard _ s, ?_⟩
    show (((place.get (place.set _ s)).records : Multiset Applied)) = _
    rw [place.get_set]
    show ((((place.get s).forget version).records : Multiset Applied)) =
      Multiset.filter (·.version ≠ version) ((place.get s).records : Multiset Applied)
    rw [Multiset.filter_coe, forget]
    exact congrArg _ (List.filter_congr fun a _ => by rw [Bool.eq_iff_iff]; simp)

/-- A history in memory shows its records if its table exists. -/
theorem Memory.history_shows {place : Part σ Memory} {heard : Part σ (List String)}
    (c : Connection σ) (alwaysSafe : Bool) (broken : List String) (ctx : Context σ) {s : σ}
    (hcreated : (place.get s).isCreated = true)
    (hdistinct : ((place.get s).records.map (·.version)).Nodup) :
    (Memory.history place c alwaysSafe broken).Shows (Memory.ledger place heard) ctx s
      (place.get s).listing where
  rows := Multiset.coe_eq_coe.mpr (List.mergeSort_perm _ _)
  newest := Applied.newest_newestFirst _
  distinct := ((List.mergeSort_perm _ _).map _).nodup_iff.mpr hdistinct
  table h := by
    have hanswer : Except.ok (place.get s).isCreated = (.ok false : Except Failure Bool) := h
    rw [hcreated] at hanswer
    cases hanswer

end SchemaMigration
