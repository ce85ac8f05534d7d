import SchemaMigration.Proofs.FileNames
import SchemaMigration.Proofs.RevertProgress
/-! # The order of the times

The scripts of a directory stand in the order of their versions, which are compared character by
character.  A version begins with its date and its time, so this is the order of the times as long
as all versions are spelt in one way.  But the underscore between date and time may be left out, and
it is greater than every digit: of two versions of one date, the one without it stands first,
whatever the times are (`Version.Overtakes`).  So scripts are in the order of their times exactly if
no version among them overtakes another one (`Catalog.Ascending.inTime_iff`). -/
namespace SchemaMigration

namespace Version

/-- The twelve digits that a version begins with, without the underscore between them. -/
def timestamp (version : String) : List Char :=
  version.toList.take 6 ++ (afterUnderscore (version.toList.drop 6)).take 6

/-- There is an underscore between date and time. -/
def IsParted (version : String) : Prop := (version.toList.drop 6).head? = some '_'

/-- Date and time are written in the digits of ASCII. -/
def IsDated (version : String) : Prop := ∀ c ∈ timestamp version, c.isDigit = true

instance (version : String) : Decidable (IsParted version) :=
  inferInstanceAs (Decidable ((version.toList.drop 6).head? = some '_'))

instance (version : String) : Decidable (IsDated version) :=
  List.decidableBAll (fun c : Char => c.isDigit = true) (timestamp version)

/-- A version without the underscore stands before one of the same date that has it, although its
time is the later one. -/
structure Overtakes (v w : String) : Prop where
  date : v.toList.take 6 = w.toList.take 6
  joined : ¬IsParted v
  parted : IsParted w
  later : timestamp w < timestamp v

/-- Texts with fronts of one length are compared by the fronts first. -/
theorem append_lt_append_iff {as bs : List Char} (h : as.length = bs.length) {cs ds : List Char} :
    as ++ cs < bs ++ ds ↔ as < bs ∨ as = bs ∧ cs < ds := by
  induction as generalizing bs with
  | nil =>
    rw [List.length_nil] at h
    rw [List.eq_nil_of_length_eq_zero h.symm]
    simp
  | cons a as ih =>
    cases bs with
    | nil => cases h
    | cons b bs =>
      rw [List.cons_append, List.cons_append, List.cons_lt_cons_iff, List.cons_lt_cons_iff,
        ih (Nat.succ.inj h), List.cons.injEq]
      tauto

/-- A version as its date, the underscore or none, its time and its name. -/
theorem exists_parts {version : String} (h : validate version = .ok ()) :
    ∃ date gap time name, version.toList = date ++ (gap ++ (time ++ name)) ∧ date.length = 6 ∧
      time.length = 6 ∧ version.toList.take 6 = date ∧ timestamp version = date ++ time ∧
      (gap = [] ∧ ¬IsParted version ∨ gap = ['_'] ∧ IsParted version) := by
  have hspells := isVersion_iff.mp (validate_eq_ok.mp h)
  generalize hcs : version.toList = cs at hspells
  obtain @⟨date, gap, time, name, hdate, hgap, htime, -⟩ := hspells
  have hparts : version.toList = date ++ (gap ++ (time ++ name)) := by
    rw [hcs, List.append_assoc, List.append_assoc]
  have htake : version.toList.take 6 = date := by
    rw [hparts, ← hdate.1, List.take_left]
  have hdrop : version.toList.drop 6 = gap ++ (time ++ name) := by
    rw [hparts, ← hdate.1, List.drop_left]
  refine ⟨date, gap, time, name, hcs ▸ hparts, hdate.1, htime.1, hcs ▸ htake, ?_, ?_⟩
  · rw [timestamp, htake, hdrop, afterUnderscore_append hgap htime, ← htime.1, List.take_left]
  · rw [IsParted, hdrop]
    rcases hgap with rfl | rfl
    · refine .inl ⟨rfl, ?_⟩
      obtain ⟨c, time, rfl⟩ := List.exists_cons_of_length_eq_add_one htime.1
      rintro ⟨⟩
      exact absurd (htime.2 '_' List.mem_cons_self) (by decide)
    · exact .inr ⟨rfl, rfl⟩

variable {v w : String}

/-- Every digit of ASCII is less than the underscore. -/
theorem lt_underscore {c : Char} (h : c.isDigit = true) : c < '_' := by
  have hc : 48 ≤ c.toNat ∧ c.toNat ≤ 57 := Char.isDigit_iff_toNat.mp h
  show c.toNat < 95
  omega

/-- The digits that a version goes on with are less than an underscore with what is behind it. -/
theorem time_lt_underscore {time : List Char} (hlength : time.length = 6)
    (hdigits : ∀ c ∈ time, c.isDigit = true) (cs ds : List Char) : time ++ cs < '_' :: ds := by
  obtain ⟨c, time, rfl⟩ := List.exists_cons_of_length_eq_add_one hlength
  exact List.cons_lt_cons_iff.mpr (.inl (lt_underscore (hdigits c List.mem_cons_self)))

/-- The order of versions is that of their times, except where one overtakes the other. -/
theorem timestamp_le_or_overtakes (hv : validate v = .ok ()) (hw : validate w = .ok ())
    (hdated : IsDated w) (h : v < w) : timestamp v ≤ timestamp w ∨ Overtakes v w := by
  obtain ⟨date, gap, time, name, hparts, hdate, htime, htake, hstamp, hgap⟩ := exists_parts hv
  obtain ⟨date', gap', time', name', hparts', hdate', htime', htake', hstamp', hgap'⟩ :=
    exists_parts hw
  have hlength : date.length = date'.length := hdate.trans hdate'.symm
  have hlength' : time.length = time'.length := htime.trans htime'.symm
  rw [String.lt_iff, hparts, hparts', append_lt_append_iff hlength] at h
  rcases h with hlt | ⟨rfl, hrest⟩
  · left
    rw [hstamp, hstamp']
    exact le_of_lt ((append_lt_append_iff hlength).mpr (.inl hlt))
  -- what is behind the date decides: the times, where both have the underscore or neither has
  have hsame (hrest : time ++ name < time' ++ name') : timestamp v ≤ timestamp w := by
    rw [hstamp, hstamp']
    rcases (append_lt_append_iff hlength').mp hrest with hlt | ⟨rfl, -⟩
    · exact le_of_lt (List.append_left_lt hlt)
    · exact le_refl _
  rcases hgap with ⟨rfl, hjoined⟩ | ⟨rfl, hparted⟩ <;>
    rcases hgap' with ⟨rfl, hjoined'⟩ | ⟨rfl, hparted'⟩
  · exact .inl (hsame hrest)
  · rcases le_or_gt (timestamp v) (timestamp w) with hle | hgt
    · exact .inl hle
    · exact .inr ⟨htake.trans htake'.symm, hjoined, hparted', hgt⟩
  · have hdigits : ∀ c ∈ time', c.isDigit = true := fun c hc =>
      hdated c (hstamp' ▸ List.mem_append_right _ hc)
    exact absurd hrest (lt_asymm (time_lt_underscore htime' hdigits _ _))
  · rcases List.cons_lt_cons_iff.mp hrest with hlt | ⟨-, hrest⟩
    · exact absurd hlt (lt_irrefl _)
    · exact .inl (hsame hrest)

/-- A version that overtakes another one stands before it. -/
theorem Overtakes.lt (h : Overtakes v w) (hv : validate v = .ok ()) (hw : validate w = .ok ())
    (hdated : IsDated v) : v < w := by
  obtain ⟨date, gap, time, name, hparts, hdate, htime, htake, hstamp, hgap⟩ := exists_parts hv
  obtain ⟨date', gap', time', name', hparts', -, -, htake', -, hgap'⟩ := exists_parts hw
  obtain rfl : date = date' := htake.symm.trans (h.date.trans htake')
  rcases hgap with ⟨rfl, -⟩ | ⟨-, hparted⟩
  · rcases hgap' with ⟨-, hjoined⟩ | ⟨rfl, -⟩
    · exact absurd h.parted hjoined
    · have hdigits : ∀ c ∈ time, c.isDigit = true := fun c hc =>
        hdated c (hstamp ▸ List.mem_append_right _ hc)
      rw [String.lt_iff, hparts, hparts']
      exact List.append_left_lt (time_lt_underscore htime hdigits _ _)
  · exact absurd hparted h.joined

end Version

/-! ### Scripts in the order of their times -/

open Version (timestamp IsDated IsParted Overtakes)

namespace Catalog

variable {fs gs : List MigrationFile}

/-- No script stands behind one of a later time. -/
def InTime (fs : List MigrationFile) : Prop :=
  fs.Pairwise fun f g => timestamp f.version ≤ timestamp g.version

instance (fs : List MigrationFile) : Decidable (InTime fs) :=
  inferInstanceAs (Decidable (fs.Pairwise fun f g => timestamp f.version ≤ timestamp g.version))

/-- Scripts whose versions are versions, with dates and times in ASCII. -/
def Dated (fs : List MigrationFile) : Prop :=
  ∀ f ∈ fs, Version.validate f.version = .ok () ∧ IsDated f.version

theorem Dated.of_sublist (h : Dated gs) (hsub : fs.Sublist gs) : Dated fs :=
  fun f hf => h f (hsub.subset hf)

/-- Scripts in the order of their versions are in the order of their times exactly if none of them
overtakes another one. -/
theorem Ascending.inTime_iff (h : Ascending fs) (hdated : Dated fs) :
    InTime fs ↔ ∀ f ∈ fs, ∀ g ∈ fs, ¬Overtakes f.version g.version := by
  constructor
  · intro htime f hf g hg hover
    -- of two scripts of the list, the one with the lesser version stands first
    have hordered : ∀ a ∈ fs, ∀ b ∈ fs, a.version < b.version →
        timestamp a.version ≤ timestamp b.version := by
      refine List.Pairwise.forall_of_forall_of_flip ?_ (htime.imp ?_) (h.imp ?_)
      · exact fun a _ hlt => absurd hlt (lt_irrefl _)
      · exact fun hle _ => hle
      · exact fun hlt hgt => absurd hgt (lt_asymm hlt)
    have hlt : f.version < g.version :=
      hover.lt (hdated f hf).1 (hdated g hg).1 (hdated f hf).2
    exact absurd hover.later (not_lt.mpr (hordered f hf g hg hlt))
  · intro hnone
    refine h.imp_of_mem fun {f g} hf hg hlt => ?_
    have hcases := Version.timestamp_le_or_overtakes (hdated f hf).1 (hdated g hg).1
      (hdated g hg).2 hlt
    exact hcases.resolve_right (hnone f hf g hg)

/-- How far the order of scripts is that of their times. -/
structure Chronology (fs : List MigrationFile) : Prop where
  /-- Two scripts stand against their times exactly if the first overtakes the second. -/
  pairs : fs.Pairwise fun f g =>
    timestamp g.version < timestamp f.version ↔ Overtakes f.version g.version
  /-- All are in order exactly if none overtakes another one. -/
  inTime_iff : InTime fs ↔ ∀ f ∈ fs, ∀ g ∈ fs, ¬Overtakes f.version g.version
  /-- All are in order where the versions are spelt in one way. -/
  alike : (∀ f ∈ fs, ∀ g ∈ fs, IsParted f.version ↔ IsParted g.version) → InTime fs

theorem Ascending.chronology (h : Ascending fs) (hdated : Dated fs) : Chronology fs where
  pairs := by
    refine h.imp_of_mem fun {f g} hf hg hlt => ⟨fun hlater => ?_, fun hover => hover.later⟩
    have hcases := Version.timestamp_le_or_overtakes (hdated f hf).1 (hdated g hg).1
      (hdated g hg).2 hlt
    exact hcases.resolve_left (not_le.mpr hlater)
  inTime_iff := h.inTime_iff hdated
  alike halike := (h.inTime_iff hdated).mpr fun f hf g hg hover =>
    hover.joined ((halike f hf g hg).mpr hover.parted)

end Catalog

open Catalog (Chronology InTime)

variable {σ : Type}

/-- **Migrations are in the order of their times, unless one overtakes another.**  Let a directory
be read, with dates and times in ASCII.

* The scripts that apply stand against their times exactly in those pairs in which a version without
  the underscore has the date of one with it and a later time: it stands first.  So they are in the
  order of their times exactly if there is no such pair, and where all versions are spelt in one
  way.
* The plan of `up` and the pending migrations are taken from these scripts in their order, whatever
  has been applied and whatever the limit is, and the same holds of them. -/
theorem Migrator.pending_in_time {m : Migrator σ} {files : Files} {catalog : Catalog}
    (hscan : files.catalog m.directory = .ok catalog)
    (hascii : ∀ f ∈ catalog.ups, IsDated f.version) :
    Chronology catalog.ups ∧
    (∀ ctx limit s p t, (m.planUp files ctx limit).perform s = (.ok p, t) →
      p.downs = [] ∧ p.ups.Sublist catalog.ups ∧ Chronology p.ups) ∧
    ∀ ctx limit s fs t, (m.pending files ctx limit).perform s = (.ok fs, t) →
      fs.Sublist catalog.ups ∧ Chronology fs := by
  obtain ⟨scripts, hscripts, hholds⟩ := Files.catalog_holds hscan
  have hascending : Catalog.Ascending catalog.ups := hholds.ascending .up
  have hdated : Catalog.Dated catalog.ups := fun f hf =>
    ⟨Files.validate_of_scriptFiles hscripts ((hholds.mem .up f).mp hf).1, hascii f hf⟩
  have hpart {fs : List MigrationFile} (hsub : fs.Sublist catalog.ups) : Chronology fs :=
    Catalog.Ascending.chronology (hascending.sublist hsub) (hdated.of_sublist hsub)
  have hpending (applied : List Applied) (limit : Limit) :
      (limit.truncate (Plan.pending catalog applied)).Sublist catalog.ups :=
    (limit.truncate_sublist _).trans Plan.pending_sublist
  refine ⟨hascending.chronology hdated, fun ctx limit s p t hplan => ?_,
    fun ctx limit s fs t hfs => ?_⟩
  · obtain ⟨applied, -, rfl⟩ := planUp_ok hscan hplan
    exact ⟨rfl, hpending applied limit, hpart (hpending applied limit)⟩
  · obtain ⟨applied, catalog', -, hscan', rfl⟩ := pending_ok hfs
    obtain rfl : catalog = catalog' := Except.ok.inj (hscan.symm.trans hscan')
    exact ⟨hpending applied limit, hpart (hpending applied limit)⟩

/-- So it is with two migrations that are spelt in one way. -/
theorem Migrator.pending_in_time_parted :
    ∃ catalog, Files.withPairs.catalog "/" = .ok catalog ∧
      (∀ f ∈ catalog.ups, IsDated f.version) ∧ InTime catalog.ups := by
  obtain ⟨catalog, hscan, hascii, hparted⟩ := Failure.ok_of_any
    (r := Files.withPairs.catalog "/") (p := fun catalog =>
      (∀ f ∈ catalog.ups, IsDated f.version) ∧ ∀ f ∈ catalog.ups, IsParted f.version)
    (by decide +kernel)
  have hchronology := (pending_in_time (m := Bench.migrator Bench.telling) hscan hascii).1
  refine ⟨catalog, hscan, hascii, hchronology.alike fun f hf g hg => ?_⟩
  exact iff_of_true (hparted f hf) (hparted g hg)

/-- A directory with two migrations of one day, of which the later one is spelt without the
underscore. -/
def Files.withSpellings : Files :=
  ⟨[(["210328_000000_a.up.sql"], .file (Text.Utf8.encodeString "A")),
    (["210328235959_b.up.sql"], .file (Text.Utf8.encodeString "B"))], []⟩

/-- The migration of midnight is applied behind that of the evening after it. -/
theorem Migrator.evening_before_midnight :
    let m := Bench.migrator Bench.telling
    let ctx := Context.ofToken .never
    let order (p : Plan) := p.ups.map (·.version)
    ((m.planUp .withSpellings ctx .all).perform (Bench.holding [])).1.toOption.map order =
      some ["210328235959_b", "210328_000000_a"] ∧
    ∃ catalog, Files.withSpellings.catalog "/" = .ok catalog ∧
      (∀ f ∈ catalog.ups, IsDated f.version) ∧ ¬InTime catalog.ups := by
  refine ⟨by decide +kernel, ?_⟩
  exact Failure.ok_of_any (r := Files.withSpellings.catalog "/") (p := fun catalog =>
    (∀ f ∈ catalog.ups, IsDated f.version) ∧ ¬InTime catalog.ups) (by decide +kernel)

end SchemaMigration
