import Mathlib.Data.List.Dedup
import SchemaMigration.Proofs.HistoryListing
/-! # Rows of which the newest is kept

A table that only grows holds one row for each time that a version was recorded or forgotten.  It is
kept in partitions by month, and merging leaves, in each partition, the newest row of each version
(`Merged`); rows of different partitions are never merged.

If the rows are written in the order of their times, the newest row of a version in a month is the
last one written (`lastIn?`).  So a merged table holds the last row of each month (`Holds`), and not
only the last row of all (`lastOf?`): these are the same where all rows of a version are of one
month (`lastIn?_eq_lastOf?`). -/
namespace SchemaMigration.ClickHouse

/-- A row of a history table. -/
structure Record where
  version : String
  /-- The second at which it was written. -/
  time : Int
  /-- Whether it says that the version was forgotten. -/
  deleted : Bool
  deriving DecidableEq, Repr

namespace Record

/-- What a listing shows of the row. -/
def applied (r : Record) : Applied := ⟨r.version, r.time⟩

/-- What merging goes by: the partition, which is the month of the row, and the version. -/
def key (month : Int → Int) (r : Record) : Int × String := (month r.time, r.version)

end Record

/-- The rows with a key. -/
def rowsOf (month : Int → Int) (key : Int × String) (rows : List Record) : List Record :=
  rows.filter fun r => r.key month = key

/-- The row with the greatest time, and the last one among equals. -/
def newest? : List Record → Option Record
  | [] => none
  | r :: rest =>
    match newest? rest with
    | none => some r
    | some s => if s.time < r.time then some r else some s

/-- After a merging, each key has its newest row. -/
def Merged (month : Int → Int) (before after : List Record) : Prop :=
  ∀ key, rowsOf month key after = (newest? (rowsOf month key before)).toList

/-- The last row of a version in a month. -/
def lastIn? (month : Int → Int) (m : Int) (version : String) (rows : List Record) :
    Option Record := (rowsOf month (m, version) rows).getLast?

/-- The last row of a version. -/
def lastOf? (version : String) (rows : List Record) : Option Record :=
  (rows.filter fun r => r.version = version).getLast?

variable {month : Int → Int} {m : Int} {version : String} {rows table table' : List Record}
variable {r : Record}

/-! ### The newest row -/

theorem newest?_concat (h : ∀ s ∈ rows, s.time ≤ r.time) : newest? (rows ++ [r]) = some r := by
  induction rows with
  | nil => rfl
  | cons s rows ih =>
    rw [List.cons_append, newest?, ih fun s' hs' => h s' (List.mem_cons_of_mem _ hs')]
    exact if_neg (not_lt.mpr (h s List.mem_cons_self))

theorem newest?_toList (o : Option Record) : newest? o.toList = o := by
  cases o <;> rfl

/-! ### The last row -/

theorem mem_rowsOf {key : Int × String} :
    r ∈ rowsOf month key rows ↔ r ∈ rows ∧ r.key month = key := by
  rw [rowsOf, List.mem_filter, decide_eq_true_eq]

theorem rowsOf_append (key : Int × String) (rows rows' : List Record) :
    rowsOf month key (rows ++ rows') = rowsOf month key rows ++ rowsOf month key rows' :=
  List.filter_append ..

theorem rowsOf_singleton (key : Int × String) (r : Record) :
    rowsOf month key [r] = if r.key month = key then [r] else [] := by
  by_cases h : r.key month = key
  · rw [if_pos h, rowsOf, List.filter_cons_of_pos (by simpa using h), List.filter_nil]
  · rw [if_neg h, rowsOf, List.filter_cons_of_neg (by simpa using h), List.filter_nil]

theorem key_of_lastIn? (h : lastIn? month m version rows = some r) :
    r ∈ rows ∧ r.key month = (m, version) :=
  mem_rowsOf.mp (List.mem_of_getLast? h)

/-- The rows of a version in a month, taken from the rows of the version. -/
theorem rowsOf_eq_filter (m : Int) (version : String) (rows : List Record) :
    rowsOf month (m, version) rows =
      (rows.filter fun r => r.version = version).filter fun r => month r.time = m := by
  rw [rowsOf, List.filter_filter]
  exact List.filter_congr fun r _ => by simp [Record.key]

/-- The last row of a version is the last of its month. -/
theorem lastIn?_of_lastOf? (h : lastOf? version rows = some r) :
    lastIn? month (month r.time) version rows = some r := by
  obtain ⟨before, hrows⟩ := List.getLast?_eq_some_iff.mp h
  rw [lastIn?, rowsOf_eq_filter, hrows, List.filter_append,
    List.filter_cons_of_pos (by simp), List.filter_nil, List.getLast?_concat]

/-- Where all rows of a version are of one month, the last of the month is the last of all. -/
theorem lastIn?_eq_lastOf? (h : ∀ r ∈ rows, r.version = version → month r.time = m) :
    lastIn? month m version rows = lastOf? version rows := by
  rw [lastIn?, lastOf?, rowsOf_eq_filter, List.filter_eq_self.mpr]
  intro r hr
  obtain ⟨hr, hversion⟩ := List.mem_filter.mp hr
  exact decide_eq_true (h r hr (of_decide_eq_true hversion))

/-! ### What a merged table holds -/

/-- The table holds the last row of each key. -/
def Holds (month : Int → Int) (rows table : List Record) : Prop :=
  ∀ m version, rowsOf month (m, version) table = (lastIn? month m version rows).toList

namespace Holds

theorem nil : Holds month [] [] := fun _ _ => rfl

theorem mem_iff (h : Holds month rows table) :
    r ∈ table ↔ lastIn? month (month r.time) r.version rows = some r := by
  have hmem : r ∈ table ↔ r ∈ rowsOf month (month r.time, r.version) table :=
    ⟨fun hr => mem_rowsOf.mpr ⟨hr, rfl⟩, fun hr => (mem_rowsOf.mp hr).1⟩
  rw [hmem, h, Option.mem_toList]

/-- A row that is written last, and not before the others, is the one that merging keeps; the other
keys are as they were. -/
theorem write (h : Holds month rows table) (htime : ∀ s ∈ rows, s.time ≤ r.time)
    (hmerged : Merged month (table ++ [r]) table') : Holds month (rows ++ [r]) table' := by
  intro m version
  have hold : rowsOf month (m, version) table = (lastIn? month m version rows).toList :=
    h m version
  rw [hmerged, lastIn?, rowsOf_append, rowsOf_append, rowsOf_singleton]
  by_cases hkey : r.key month = (m, version)
  · rw [if_pos hkey, List.getLast?_concat, newest?_concat]
    intro s hs
    rw [hold, Option.mem_toList] at hs
    exact htime s (key_of_lastIn? hs).1
  · rw [if_neg hkey, List.append_nil, List.append_nil, hold, newest?_toList]
    rfl

/-- A version has a row that is not deleted exactly if some month ended with such a row. -/
theorem exists_standing_iff (h : Holds month rows table) (version : String) :
    (∃ r ∈ table, r.version = version ∧ r.deleted = false) ↔
      ∃ m r, lastIn? month m version rows = some r ∧ r.deleted = false := by
  constructor
  · rintro ⟨r, hr, rfl, hdeleted⟩
    exact ⟨_, r, h.mem_iff.mp hr, hdeleted⟩
  · rintro ⟨m, r, hlast, hdeleted⟩
    obtain ⟨hmonth, hversion⟩ := Prod.mk.inj (key_of_lastIn? hlast).2
    refine ⟨r, h.mem_iff.mpr ?_, hversion, hdeleted⟩
    rw [hmonth, hversion, hlast]

/-- A listing shows a version once for each month that ended with a row that is not deleted. -/
theorem filter_listing (h : Holds month rows table) {listing : List Applied}
    (hlisting : listing.Perm ((table.filter fun r => r.deleted = false).map Record.applied))
    (m : Int) (version : String) :
    listing.filter (fun a => month a.time = m ∧ a.version = version) =
      (((lastIn? month m version rows).filter fun r => r.deleted = false).map
        Record.applied).toList := by
  have hperm := hlisting.filter fun a => decide (month a.time = m ∧ a.version = version)
  have hkey : (table.filter fun r => r.deleted = false).filter
        (fun r => decide (month r.time = m ∧ r.version = version)) =
      ((lastIn? month m version rows).filter fun r => r.deleted = false).toList := by
    rw [List.filter_filter, Option.toList_filter, ← h m version, rowsOf, List.filter_filter]
    exact List.filter_congr fun r _ => by simp [Record.key, Bool.and_comm]
  rw [List.filter_map] at hperm
  replace hperm := hperm.trans (.of_eq (congrArg (List.map Record.applied) hkey))
  cases hstanding : (lastIn? month m version rows).filter fun r => r.deleted = false with
  | none =>
    rw [hstanding] at hperm
    exact List.perm_nil.mp hperm
  | some r =>
    rw [hstanding] at hperm
    exact List.perm_singleton.mp hperm

/-- Where all rows of a version are of one month, a listing shows the version once if the last of
all its rows is not deleted, and not at all otherwise. -/
theorem filter_listing_of_month (h : Holds month rows table) {listing : List Applied}
    (hlisting : listing.Perm ((table.filter fun r => r.deleted = false).map Record.applied))
    (hmonth : ∀ r ∈ rows, r.version = version → month r.time = m) :
    listing.filter (fun a => a.version = version) =
      (((lastOf? version rows).filter fun r => r.deleted = false).map Record.applied).toList := by
  rw [← lastIn?_eq_lastOf? hmonth, ← h.filter_listing hlisting m version]
  refine List.filter_congr fun a ha => ?_
  obtain ⟨r, hr, rfl⟩ := List.mem_map.mp (hlisting.subset ha)
  have hrow : r ∈ rows := (key_of_lastIn? (h.mem_iff.mp (List.mem_of_mem_filter hr))).1
  have himp : r.version = version → month r.time = m := hmonth r hrow
  rw [decide_eq_decide]
  exact ⟨fun hversion => ⟨himp hversion, hversion⟩, And.right⟩

end Holds

/-! ### A merging -/

/-- The newest rows of a table. -/
def merge (month : Int → Int) (rows : List Record) : List Record :=
  (rows.filter fun r => newest? (rowsOf month (r.key month) rows) = some r).dedup

theorem mem_of_newest? (h : newest? rows = some r) : r ∈ rows := by
  induction rows with
  | nil => cases h
  | cons s rows ih =>
    rw [newest?] at h
    split at h
    · cases h
      exact List.mem_cons_self
    · rename_i s' hs'
      split at h
      · cases h
        exact List.mem_cons_self
      · exact List.mem_cons_of_mem _ (ih (hs'.trans h))

/-- It is what a merging leaves. -/
theorem merged_merge (month : Int → Int) (rows : List Record) :
    Merged month rows (merge month rows) := by
  intro key
  have hmem (r : Record) : r ∈ rowsOf month key (merge month rows) ↔
      newest? (rowsOf month key rows) = some r := by
    rw [mem_rowsOf, merge, List.mem_dedup, List.mem_filter, decide_eq_true_eq]
    constructor
    · rintro ⟨⟨-, h⟩, rfl⟩
      exact h
    · intro h
      obtain ⟨hr, rfl⟩ := mem_rowsOf.mp (mem_of_newest? h)
      exact ⟨⟨hr, h⟩, rfl⟩
  have hnodup : (rowsOf month key (merge month rows)).Nodup := (List.nodup_dedup _).filter _
  have hperm : (rowsOf month key (merge month rows)).Perm
      (newest? (rowsOf month key rows)).toList := by
    refine (List.perm_ext_iff_of_nodup hnodup ?_).mpr fun r => ?_
    · cases newest? (rowsOf month key rows) <;> simp
    · rw [hmem, Option.mem_toList]
  cases h : newest? (rowsOf month key rows) with
  | none =>
    rw [h] at hperm
    exact List.perm_nil.mp hperm
  | some r =>
    rw [h] at hperm
    exact List.perm_singleton.mp hperm

end SchemaMigration.ClickHouse
