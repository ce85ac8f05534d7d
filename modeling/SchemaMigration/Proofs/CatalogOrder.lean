import Mathlib.Data.String.Basic
import SchemaMigration.Files
/-! # The order of a catalog

A catalog that was made of a directory holds each of its scripts under the direction of the
script, the versions of a direction ascend strictly, and there is nothing else in it.  What is
to be done with a directory can be said by these facts alone, without the way in which a catalog
is filled. -/
namespace SchemaMigration

namespace Catalog

/-- Strictly ascending versions. -/
def Ascending (fs : List MigrationFile) : Prop := fs.Pairwise fun f g => f.version < g.version

theorem mem_place {file f : MigrationFile} {fs : List MigrationFile} :
    f ∈ place file fs ↔ f = file ∨ f ∈ fs := by
  induction fs with
  | nil => exact List.mem_cons
  | cons g fs ih =>
    rw [place]
    split
    · exact List.mem_cons
    · rw [List.mem_cons, ih, List.mem_cons, or_left_comm]

/-- A new version gets its place in the order. -/
theorem Ascending.place {file : MigrationFile} {fs : List MigrationFile} (h : Ascending fs)
    (hnew : ∀ f ∈ fs, f.version ≠ file.version) : Ascending (place file fs) := by
  induction fs with
  | nil => exact List.pairwise_singleton _ _
  | cons g fs ih =>
    obtain ⟨hg, hfs⟩ := List.pairwise_cons.mp h
    rw [Catalog.place]
    split
    · rename_i hlt
      refine List.pairwise_cons.mpr ⟨fun f hf => ?_, h⟩
      rcases List.mem_cons.mp hf with rfl | hf
      · exact hlt
      · exact lt_trans hlt (hg f hf)
    · rename_i hle
      refine List.pairwise_cons.mpr ⟨fun f hf => ?_, ?_⟩
      · rcases mem_place.mp hf with rfl | hf
        · exact lt_of_le_of_ne (not_lt.mp hle) (hnew g List.mem_cons_self)
        · exact hg f hf
      · exact ih hfs fun f hf => hnew f (List.mem_cons_of_mem _ hf)

theorem find?_eq_none {version : String} {fs : List MigrationFile}
    (h : find? version fs = none) {f : MigrationFile} (hf : f ∈ fs) : f.version ≠ version := by
  have := List.find?_eq_none.mp h f hf
  simpa using this

/-- The catalog holds the given scripts, each direction in its order. -/
structure Holds (c : Catalog) (files : List MigrationFile) : Prop where
  ascending : ∀ d, Ascending (c.scripts d)
  mem : ∀ d f, f ∈ c.scripts d ↔ f ∈ files ∧ f.direction = d

theorem empty_holds : empty.Holds [] where
  ascending d := by cases d <;> exact List.Pairwise.nil
  mem d f := by cases d <;> simp [scripts, empty]

/-- The scripts of each direction after one has been added. -/
theorem insert_scripts {c c' : Catalog} {file : MigrationFile} (h : c.insert file = .ok c') :
    c.get? file.version file.direction = none ∧
      ∀ d, c'.scripts d =
        if file.direction = d then place file (c.scripts d) else c.scripts d := by
  rw [insert] at h
  split at h
  · cases h
  · rename_i hnone
    refine ⟨hnone, fun d => ?_⟩
    cases hdirection : file.direction <;> rw [hdirection] at h <;> cases h <;> cases d <;> rfl

theorem Holds.insert {c c' : Catalog} {files : List MigrationFile} {file : MigrationFile}
    (hc : c.Holds files) (h : c.insert file = .ok c') : c'.Holds (files ++ [file]) := by
  obtain ⟨hnone, hscripts⟩ := insert_scripts h
  refine ⟨fun d => ?_, fun d f => ?_⟩
  · rw [hscripts d]
    split
    -- no script of this direction has the version, so its place is strict on both sides
    · rename_i hd
      rw [hd] at hnone
      exact (hc.ascending d).place fun f hf => find?_eq_none hnone hf
    · exact hc.ascending d
  · rw [hscripts d, List.mem_append, List.mem_singleton, or_and_right, ← hc.mem d f]
    split
    · rename_i hd
      rw [mem_place, or_comm, and_iff_left_of_imp fun hf : f = file => hf ▸ hd]
    · rename_i hd
      exact ⟨.inl, fun hf => hf.elim id fun ⟨heq, hdirection⟩ => absurd (heq ▸ hdirection) hd⟩

theorem Holds.insertAll {c c' : Catalog} {files more : List MigrationFile} (hc : c.Holds files)
    (h : c.insertAll more = .ok c') : c'.Holds (files ++ more) := by
  induction more generalizing c files with
  | nil =>
    cases h
    rw [List.append_nil]
    exact hc
  | cons file more ih =>
    rw [Catalog.insertAll, List.foldlM_cons] at h
    cases hinsert : c.insert file with
    | error e =>
      rw [hinsert] at h
      cases h
    | ok c₁ =>
      rw [hinsert] at h
      have := ih (hc.insert hinsert) h
      rwa [List.append_assoc, List.singleton_append] at this

end Catalog

/-- The catalog of a directory holds the script files of the directory. -/
theorem Files.catalog_holds {t : Files} {directory : String} {c : Catalog}
    (h : t.catalog directory = .ok c) :
    ∃ files, t.scriptFiles directory = .ok files ∧ c.Holds files := by
  rw [Files.catalog] at h
  cases hfiles : t.scriptFiles directory with
  | error e =>
    rw [hfiles] at h
    cases h
  | ok files =>
    rw [hfiles] at h
    exact ⟨files, rfl, Catalog.empty_holds.insertAll h⟩

end SchemaMigration
