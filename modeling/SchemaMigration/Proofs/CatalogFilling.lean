import Mathlib.Data.List.Nodup
import SchemaMigration.Proofs.CatalogOrder
import SchemaMigration.Proofs.TextOrder
/-! # Filling a catalog

A catalog is filled with scripts one after another.  It takes them all exactly if no two have the
same version and direction (`insertAll_ok_iff`), and then it holds each of them at the place of its
version (`Holds.get?_eq_some_iff`).  What a catalog holds determines it (`Holds.unique`), so the
order in which the scripts came is of no account (`Catalog.filled_alike`). -/
namespace SchemaMigration

namespace Catalog

variable {c c' : Catalog} {file : MigrationFile} {files files' more : List MigrationFile}

/-- What two scripts of a catalog may not have in common. -/
def key (f : MigrationFile) : String × Direction := (f.version, f.direction)

/-! ### What a catalog answers -/

theorem find?_eq_some_iff {version : String} {f : MigrationFile} {fs : List MigrationFile}
    (h : Ascending fs) : find? version fs = some f ↔ f ∈ fs ∧ f.version = version := by
  constructor
  · intro hfind
    exact ⟨List.mem_of_find?_eq_some hfind, by simpa using List.find?_some hfind⟩
  · rintro ⟨hf, rfl⟩
    induction fs with
    | nil => cases hf
    | cons g fs ih =>
      obtain ⟨hg, hfs⟩ := List.pairwise_cons.mp h
      rw [find?, List.find?_cons]
      rcases List.mem_cons.mp hf with rfl | hf
      · rw [beq_self_eq_true]
      · rw [beq_false_of_ne (ne_of_lt (hg f hf))]
        exact ih hfs hf

namespace Holds

theorem get?_eq_some_iff (h : c.Holds files) {version : String} {direction : Direction}
    {f : MigrationFile} :
    c.get? version direction = some f ↔
      f ∈ files ∧ f.version = version ∧ f.direction = direction := by
  rw [get?, find?_eq_some_iff (h.ascending direction), h.mem, and_right_comm, and_assoc]

theorem get?_isSome_iff (h : c.Holds files) {version : String} {direction : Direction} :
    (c.get? version direction).isSome = true ↔ (version, direction) ∈ files.map key := by
  rw [Option.isSome_iff_exists, List.mem_map]
  refine exists_congr fun f => h.get?_eq_some_iff.trans (and_congr_right fun _ => ?_)
  rw [key, Prod.mk.injEq]

theorem contains_iff (h : c.Holds files) {version : String} :
    c.contains version = true ↔ ∃ f ∈ files, f.version = version := by
  rw [contains, Bool.or_eq_true, h.get?_isSome_iff, h.get?_isSome_iff]
  simp only [List.mem_map, key, Prod.mk.injEq]
  constructor
  · rintro (⟨f, hf, hversion, -⟩ | ⟨f, hf, hversion, -⟩) <;> exact ⟨f, hf, hversion⟩
  · rintro ⟨f, hf, hversion⟩
    cases hdirection : f.direction
    · exact .inl ⟨f, hf, hversion, hdirection⟩
    · exact .inr ⟨f, hf, hversion, hdirection⟩

theorem isEmpty_iff (h : c.Holds files) : c.isEmpty = true ↔ files = [] := by
  rw [isEmpty, Bool.and_eq_true, List.isEmpty_iff, List.isEmpty_iff]
  constructor
  · rintro ⟨hups, hdowns⟩
    have hnone (d : Direction) : c.scripts d = [] := by
      cases d
      · exact hups
      · exact hdowns
    refine List.eq_nil_iff_forall_not_mem.mpr fun f hf => ?_
    have hmem := (h.mem f.direction f).mpr ⟨hf, rfl⟩
    rw [hnone] at hmem
    exact List.not_mem_nil hmem
  · rintro rfl
    constructor <;> refine List.eq_nil_iff_forall_not_mem.mpr fun f hf => ?_
    · exact List.not_mem_nil ((h.mem .up f).mp hf).1
    · exact List.not_mem_nil ((h.mem .down f).mp hf).1

end Holds

theorem Ascending.nodup {fs : List MigrationFile} (h : Ascending fs) : fs.Nodup :=
  List.Pairwise.imp (fun hlt heq => ne_of_lt hlt (congrArg MigrationFile.version heq)) h

/-- The members of an ascending list determine it. -/
theorem Ascending.eq_of_mem_iff {fs gs : List MigrationFile} (hfs : Ascending fs)
    (hgs : Ascending gs) (h : ∀ f, f ∈ fs ↔ f ∈ gs) : fs = gs := by
  refine ((List.perm_ext_iff_of_nodup hfs.nodup hgs.nodup).mpr h).eq_of_pairwise ?_ hfs hgs
  exact fun f g _ _ hfg hgf => absurd hfg (lt_asymm hgf)

/-- What a catalog holds determines it. -/
theorem Holds.unique (h : c.Holds files) (h' : c'.Holds files')
    (hfiles : ∀ f, f ∈ files ↔ f ∈ files') : c = c' := by
  have hscripts (d : Direction) : c.scripts d = c'.scripts d := by
    refine (h.ascending d).eq_of_mem_iff (h'.ascending d) fun f => ?_
    rw [h.mem, h'.mem, hfiles]
  obtain ⟨ups, downs⟩ := c
  obtain ⟨ups', downs'⟩ := c'
  rw [mk.injEq]
  exact ⟨hscripts .up, hscripts .down⟩

/-! ### When a catalog is filled -/

/-- A script is taken exactly if none of its version and direction is there. -/
theorem Holds.insert_cases (h : c.Holds files) (file : MigrationFile) :
    (key file ∉ files.map key ∧ ∃ c', c.insert file = .ok c') ∨
      (key file ∈ files.map key ∧
        c.insert file = .error (.duplicateMigration file.version file.path)) := by
  rw [Catalog.insert]
  cases hget : c.get? file.version file.direction with
  | some f =>
    refine .inr ⟨?_, rfl⟩
    exact h.get?_isSome_iff.mp (by rw [hget]; rfl)
  | none =>
    refine .inl ⟨fun hmem => ?_, _, rfl⟩
    have hsome := h.get?_isSome_iff.mpr hmem
    rw [hget] at hsome
    cases hsome

/-- Scripts are taken one after another exactly if no two have the same version and direction. -/
theorem Holds.insertAll_cases (h : c.Holds files) (hfiles : (files.map key).Nodup)
    (more : List MigrationFile) :
    (((files ++ more).map key).Nodup ∧ ∃ c', c.insertAll more = .ok c') ∨
      (¬((files ++ more).map key).Nodup ∧ ∃ file ∈ more,
        c.insertAll more = .error (.duplicateMigration file.version file.path)) := by
  induction more generalizing c files with
  | nil =>
    rw [List.append_nil]
    exact .inl ⟨hfiles, c, rfl⟩
  | cons file more ih =>
    rw [Catalog.insertAll, List.foldlM_cons]
    rcases h.insert_cases file with ⟨hnew, c₁, hinsert⟩ | ⟨hold, hinsert⟩
    · have hnext : ((files ++ [file]).map key).Nodup := by
        rw [List.map_append, List.map_singleton]
        refine List.nodup_append.mpr ⟨hfiles, List.pairwise_singleton _ _, fun a ha b hb heq => ?_⟩
        rw [heq, List.mem_singleton.mp hb] at ha
        exact hnew ha
      rw [hinsert, ← List.singleton_append, ← List.append_assoc]
      rcases ih (h.insert hinsert) hnext with hok | ⟨hnot, g, hg, herror⟩
      · exact .inl hok
      · exact .inr ⟨hnot, g, List.mem_append_right _ hg, herror⟩
    · rw [hinsert]
      refine .inr ⟨fun hnodup => ?_, file, List.mem_cons_self, rfl⟩
      rw [List.map_append, List.map_cons] at hnodup
      exact (List.nodup_append.mp hnodup).2.2 _ hold _ List.mem_cons_self rfl

theorem insertAll_ok_iff :
    (∃ c, empty.insertAll files = .ok c) ↔ (files.map key).Nodup := by
  rcases empty_holds.insertAll_cases List.nodup_nil files with ⟨hnodup, hok⟩ | ⟨hnot, g, -, herror⟩
  · exact ⟨fun _ => hnodup, fun _ => hok⟩
  · refine ⟨?_, fun hnodup => absurd hnodup hnot⟩
    rintro ⟨c, hc⟩
    rw [herror] at hc
    cases hc

/-- The first script that is refused ends the filling. -/
theorem insertAll_error (h : ¬(files.map key).Nodup) :
    ∃ file ∈ files,
      empty.insertAll files = .error (.duplicateMigration file.version file.path) := by
  rcases empty_holds.insertAll_cases List.nodup_nil files with ⟨hnodup, -⟩ | ⟨-, herror⟩
  · exact absurd hnodup h
  · exact herror

/-- The scripts of a direction are those that were put in, each once. -/
theorem Holds.scripts_perm (h : c.Holds files) (hfiles : files.Nodup) (d : Direction) :
    (c.scripts d).Perm (files.filter fun f => f.direction = d) := by
  refine (List.perm_ext_iff_of_nodup (h.ascending d).nodup (hfiles.filter _)).mpr fun f => ?_
  rw [h.mem, List.mem_filter, decide_eq_true_eq]

/-- The versions of a direction ascend byte by byte. -/
theorem Ascending.bytes {fs : List MigrationFile} (h : Ascending fs) :
    fs.Pairwise fun f g =>
      Text.Utf8.encodeString f.version < Text.Utf8.encodeString g.version :=
  List.Pairwise.imp Text.Utf8.encodeString_lt h

/-- What is refused leaves the catalog in its place as it was. -/
theorem perform_add (file : MigrationFile) (c : Catalog) :
    (add file).perform c =
      match c.insert file with
      | .ok c' => (.ok (), c')
      | .error e => (.error e, c) := by
  rw [add, Action.perform_bind_ok (Part.perform_read _ c), Action.perform_bind,
    Action.perform_ofExcept, show Part.whole.get c = c from rfl]
  cases c.insert file <;> rfl

/-- **The order in which scripts come is of no account.**  Filled with the same scripts in any two
orders,

* an empty catalog takes them all if no two have the same version and direction, and is the same
  catalog afterwards; otherwise it refuses one of them as a duplicate, in both orders;
* a catalog that took them all lists each script that goes up once, in the strictly ascending byte
  order of the versions; for a version and a direction it has the script that was put in with them,
  it knows the versions that were put in, and it is empty only if nothing was;
* and a script that is refused leaves the catalog as it was. -/
theorem filled_alike (h : files.Perm files') :
    ((files.map key).Nodup ∧
        (∃ c, empty.insertAll files = .ok c ∧ empty.insertAll files' = .ok c) ∨
      ¬(files.map key).Nodup ∧
        (∃ f ∈ files, empty.insertAll files = .error (.duplicateMigration f.version f.path)) ∧
        ∃ f ∈ files', empty.insertAll files' = .error (.duplicateMigration f.version f.path)) ∧
    (∀ c, empty.insertAll files = .ok c →
      c.ups.Perm (files.filter fun f => f.direction = .up) ∧
      (c.ups.Pairwise fun f g =>
        Text.Utf8.encodeString f.version < Text.Utf8.encodeString g.version) ∧
      (∀ version direction f, c.get? version direction = some f ↔
        f ∈ files ∧ f.version = version ∧ f.direction = direction) ∧
      (∀ version, c.contains version = true ↔ ∃ f ∈ files, f.version = version) ∧
      (c.isEmpty = true ↔ files = [])) ∧
    ∀ c file e c', (add file).perform c = (.error e, c') → c' = c := by
  have hkeys : (files.map key).Nodup ↔ (files'.map key).Nodup := (h.map key).nodup_iff
  refine ⟨?_, fun c hc => ?_, fun c file e c' hadd => ?_⟩
  · by_cases hnodup : (files.map key).Nodup
    · obtain ⟨c, hc⟩ := insertAll_ok_iff.mpr hnodup
      obtain ⟨c', hc'⟩ := insertAll_ok_iff.mpr (hkeys.mp hnodup)
      have hsame : c = c' :=
        (empty_holds.insertAll hc).unique (empty_holds.insertAll hc') fun f => h.mem_iff
      exact .inl ⟨hnodup, c, hc, hsame ▸ hc'⟩
    · exact .inr ⟨hnodup, insertAll_error hnodup, insertAll_error fun h' => hnodup (hkeys.mpr h')⟩
  · have hholds : c.Holds files := empty_holds.insertAll hc
    have hfiles : files.Nodup := List.Nodup.of_map key (insertAll_ok_iff.mp ⟨c, hc⟩)
    exact ⟨hholds.scripts_perm hfiles .up, (hholds.ascending .up).bytes,
      fun _ _ _ => hholds.get?_eq_some_iff, fun _ => hholds.contains_iff, hholds.isEmpty_iff⟩
  · rw [perform_add] at hadd
    split at hadd <;> cases hadd
    rfl

/-- So it is with two scripts of one version and a third one, in two orders. -/
theorem filled_alike_swapped :
    let a : MigrationFile := ⟨"210328_221600_a", true, .up, "210328_221600_a.safe.up.sql"⟩
    let a' : MigrationFile := ⟨"210328_221600_a", false, .down, "210328_221600_a.down.sql"⟩
    let b : MigrationFile := ⟨"210329_121500_b", false, .up, "210329_121500_b.up.sql"⟩
    [b, a, a'].Perm [a', b, a] ∧
      ∃ c, empty.insertAll [b, a, a'] = .ok c ∧ empty.insertAll [a', b, a] = .ok c ∧
        c.ups.Perm [b, a] ∧ c.get? "210328_221600_a" .down = some a' := by
  intro a a' b
  have hperm : [b, a, a'].Perm [a', b, a] := by decide
  obtain ⟨hfilled, hanswers, -⟩ := filled_alike hperm
  have hnodup : ([b, a, a'].map key).Nodup := by decide
  obtain ⟨-, c, hc, hc'⟩ | ⟨hnot, -⟩ := hfilled
  · obtain ⟨hups, -, hget, -⟩ := hanswers c hc
    exact ⟨hperm, c, hc, hc', hups, (hget _ _ _).mpr ⟨by decide, rfl, rfl⟩⟩
  · exact absurd hnodup hnot

end Catalog

end SchemaMigration
