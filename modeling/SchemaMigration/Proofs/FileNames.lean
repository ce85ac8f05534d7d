import SchemaMigration.Files
import SchemaMigration.Proofs.CalendarDays
import SchemaMigration.Proofs.TextCutting
/-! # The names of script files

A version is six digits, six digits behind an underscore or none, and a name (`Version.Spells`).
The name of a file is read exactly if it is written with a version: the version, the marker where
the script is safe, and the ending of its direction (`MigrationFile.parse?_eq_some_iff`).  So the
versions are those that the name of a file can carry (`Version.validate_iff_carried`), and a new
migration gets two such names, whatever the instant (`MigrationFile.file_names_written`). -/
namespace SchemaMigration

open Text Calendar

/-! ### Versions -/

namespace Version

theorem validate_eq_ok {version : String} :
    validate version = .ok () ↔ isVersion version.toList = true := by
  rw [validate]
  split <;> simp_all

theorem validate_of_not {version : String} (h : ¬validate version = .ok ()) :
    validate version = .error (.invalidVersion version) := by
  rw [validate_eq_ok] at h
  rw [validate, if_neg h]

/-- A run of six decimal digits, of whatever script. -/
def IsSixDigits (cs : List Char) : Prop := cs.length = 6 ∧ ∀ c ∈ cs, isDecimalDigit c = true

/-- The grammar of versions: a date, a time with an underscore before it or none, and a name. -/
inductive Spells : List Char → Prop
  | mk {date gap time name : List Char} (hdate : IsSixDigits date) (hgap : gap = [] ∨ gap = ['_'])
      (htime : IsSixDigits time) (hname : isName name = true) :
      Spells (date ++ gap ++ time ++ name)

theorem isName_iff {cs : List Char} :
    isName cs = true ↔ cs ≠ [] ∧ ∀ c ∈ cs, Identifier.isPlain c = true := by
  rw [isName, Bool.and_eq_true, List.all_eq_true, Bool.not_eq_true', List.isEmpty_eq_false_iff]

theorem afterDigits?_eq_some_iff {n : Nat} {cs rest : List Char} :
    afterDigits? n cs = some rest ↔ ∃ digits, cs = digits ++ rest ∧ digits.length = n ∧
      ∀ c ∈ digits, isDecimalDigit c = true := by
  induction n generalizing cs with
  | zero =>
    rw [afterDigits?, Option.some_inj]
    constructor
    · rintro rfl
      exact ⟨[], rfl, rfl, nofun⟩
    · rintro ⟨digits, rfl, hlength, -⟩
      rw [List.eq_nil_of_length_eq_zero hlength, List.nil_append]
  | succ n ih =>
    cases cs with
    | nil =>
      refine ⟨nofun, ?_⟩
      rintro ⟨digits, hcs, hlength, -⟩
      rw [(List.append_eq_nil_iff.mp hcs.symm).1] at hlength
      cases hlength
    | cons c cs =>
      rw [afterDigits?]
      constructor
      · intro h
        split at h
        · rename_i hc
          obtain ⟨digits, rfl, hlength, hdigits⟩ := ih.mp h
          refine ⟨c :: digits, rfl, congrArg Nat.succ hlength, ?_⟩
          exact List.forall_mem_cons.mpr ⟨hc, hdigits⟩
        · cases h
      · rintro ⟨_ | ⟨d, digits⟩, hcs, hlength, hdigits⟩
        · cases hlength
        · obtain ⟨rfl, rfl⟩ := List.cons.inj hcs
          have ⟨hc, hrest⟩ := List.forall_mem_cons.mp hdigits
          rw [if_pos hc]
          exact ih.mpr ⟨digits, rfl, Nat.succ.inj hlength, hrest⟩

theorem IsSixDigits.afterDigits? {digits : List Char} (h : IsSixDigits digits) (rest : List Char) :
    Version.afterDigits? 6 (digits ++ rest) = some rest :=
  afterDigits?_eq_some_iff.mpr ⟨digits, rfl, h.1, h.2⟩

theorem afterUnderscore_parts (cs : List Char) :
    ∃ gap, (gap = [] ∨ gap = ['_']) ∧ cs = gap ++ afterUnderscore cs := by
  unfold afterUnderscore
  split
  · exact ⟨['_'], .inr rfl, rfl⟩
  · exact ⟨[], .inl rfl, rfl⟩

/-- An underscore is passed over, and six digits begin with none. -/
theorem afterUnderscore_append {gap time : List Char} (hgap : gap = [] ∨ gap = ['_'])
    (htime : IsSixDigits time) (rest : List Char) :
    afterUnderscore (gap ++ (time ++ rest)) = time ++ rest := by
  rcases hgap with rfl | rfl
  · rw [List.nil_append]
    unfold afterUnderscore
    split
    · rename_i cs hcs
      obtain ⟨hlength, hdigits⟩ := htime
      cases time with
      | nil => cases hlength
      | cons c time =>
        have hc : c = '_' := (List.cons.inj hcs).1
        have := hdigits c List.mem_cons_self
        rw [hc] at this
        exact absurd this (by decide)
    · rfl
  · rfl

theorem isVersion_iff {cs : List Char} : isVersion cs = true ↔ Spells cs := by
  constructor
  · intro h
    rw [isVersion] at h
    split at h
    · cases h
    · rename_i rest hafter
      split at h
      · cases h
      · rename_i name hafter'
        obtain ⟨date, rfl, hdate⟩ := afterDigits?_eq_some_iff.mp hafter
        obtain ⟨time, hrest, htime⟩ := afterDigits?_eq_some_iff.mp hafter'
        obtain ⟨gap, hgap, hparts⟩ := afterUnderscore_parts rest
        rw [hparts, hrest, ← List.append_assoc, ← List.append_assoc]
        exact .mk hdate hgap htime h
  · rintro ⟨hdate, hgap, htime, hname⟩
    rw [List.append_assoc, List.append_assoc, isVersion, hdate.afterDigits?]
    dsimp only
    rw [afterUnderscore_append hgap htime, htime.afterDigits?]
    exact hname

/-- The characters that versions are made of. -/
def IsPart (c : Char) : Prop := isDecimalDigit c = true ∨ Identifier.isPlain c = true

/-- No character of a version parts a path or a name. -/
theorem IsPart.ne_separator {c : Char} (h : IsPart c) : c ≠ '.' ∧ c ≠ '/' := by
  constructor <;> rintro rfl <;> revert h <;> unfold IsPart <;> decide

theorem Spells.parts {cs : List Char} (h : Spells cs) : ∀ c ∈ cs, IsPart c := by
  obtain ⟨hdate, hgap, htime, hname⟩ := h
  intro c hc
  rw [List.mem_append, List.mem_append, List.mem_append] at hc
  rcases hc with ((hc | hc) | hc) | hc
  · exact .inl (hdate.2 c hc)
  · rcases hgap with rfl | rfl
    · cases hc
    · rw [List.mem_singleton.mp hc]
      exact .inr (by decide)
  · exact .inl (htime.2 c hc)
  · exact .inr ((isName_iff.mp hname).2 c hc)

/-! ### The version of a new migration -/

theorem isDecimalDigit_of_isDigit {c : Char} (h : c.isDigit = true) : isDecimalDigit c = true := by
  have hc : 48 ≤ c.toNat ∧ c.toNat ≤ 57 := Char.isDigit_iff_toNat.mp h
  rw [isDecimalDigit, if_pos (by omega), Bool.and_eq_true, decide_eq_true_eq, decide_eq_true_eq]
  exact hc

theorem isPlain_of_isDigit {c : Char} (h : c.isDigit = true) : Identifier.isPlain c = true := by
  rw [Identifier.isPlain, Char.isAlphanum, h, Bool.or_true, Bool.true_or]

/-- Three pairs of digits are six digits. -/
theorem isSixDigits_of_pairs {a b c : List Char} (ha : a.length = 2) (hb : b.length = 2)
    (hc : c.length = 2) (h : ∀ d ∈ a ++ b ++ c, d.isDigit = true) : IsSixDigits (a ++ b ++ c) := by
  refine ⟨?_, fun d hd => isDecimalDigit_of_isDigit (h d hd)⟩
  rw [List.length_append, List.length_append, ha, hb, hc]

theorem isDigit_of_mem_pairs {a b c : Nat} {d : Char}
    (h : d ∈ (padded 2 a).toList ++ (padded 2 b).toList ++ (padded 2 c).toList) :
    d.isDigit = true := by
  rw [List.mem_append, List.mem_append] at h
  rcases h with (h | h) | h <;> exact isDigit_of_mem_padded h

/-- A stamp and a name make a version, whatever the instant. -/
theorem spells_stamp {name : String} (hname : isName name.toList = true) (at_ : Instant) :
    Spells (at_.stamp ++ "_" ++ name).toList := by
  let year := (padded 2 (at_.date.year % 100).toNat).toList
  let month := (padded 2 at_.date.month).toList
  let day := (padded 2 at_.date.day).toList
  let hour := (padded 2 at_.clock.1).toList
  let minute := (padded 2 at_.clock.2.1).toList
  let second := (padded 2 at_.clock.2.2).toList
  have hdate : IsSixDigits (year ++ month ++ day) := by
    have hmonth := dateOf_month (at_.seconds.fdiv 86400)
    have hday := dateOf_day (at_.seconds.fdiv 86400)
    exact isSixDigits_of_pairs (length_padded_two (by omega))
      (length_padded_two (Nat.lt_of_le_of_lt hmonth.2 (by decide)))
      (length_padded_two (Nat.lt_of_le_of_lt hday.2 (by decide))) fun _ => isDigit_of_mem_pairs
  have htime : IsSixDigits (hour ++ minute ++ second.take 2) := by
    have hclock := at_.clock_lt
    have hsecond : (second.take 2).length = 2 := by
      rw [List.length_take, length_padded]
      omega
    refine isSixDigits_of_pairs (length_padded_two (hclock.1.trans (by decide)))
      (length_padded_two (hclock.2.trans (by decide))) hsecond fun d hd => ?_
    have hmem : d ∈ hour ++ minute ++ second :=
      List.mem_append.mpr ((List.mem_append.mp hd).imp_right List.mem_of_mem_take)
    exact isDigit_of_mem_pairs hmem
  -- digits of the second beyond the first two would belong to the name
  have hbehind : isName (second.drop 2 ++ '_' :: name.toList) = true := by
    refine isName_iff.mpr ⟨by simp, fun c hc => ?_⟩
    rcases List.mem_append.mp hc with hc | hc
    · exact isPlain_of_isDigit (isDigit_of_mem_padded (List.mem_of_mem_drop hc))
    · rcases List.mem_cons.mp hc with rfl | hc
      · decide
      · exact (isName_iff.mp hname).2 c hc
  have hparts : (at_.stamp ++ "_" ++ name).toList =
      (year ++ month ++ day) ++ ['_'] ++ (hour ++ minute ++ second.take 2) ++
        (second.drop 2 ++ '_' :: name.toList) := by
    have hstamp : at_.stamp.toList =
        year ++ month ++ day ++ '_' :: (hour ++ minute ++ second) := by
      rw [Instant.stamp]
      simp [year, month, day, hour, minute, second]
    have hsecond : second = second.take 2 ++ second.drop 2 := (List.take_append_drop 2 second).symm
    rw [String.toList_append, String.toList_append, hstamp]
    nth_rewrite 1 [hsecond]
    simp only [List.append_assoc, List.cons_append, List.nil_append]
    rfl
  rw [hparts]
  exact .mk hdate (.inr rfl) htime hbehind

end Version

/-! ### Files -/

namespace MigrationFile

variable {path path' : String} {f f' : MigrationFile}

/-- How the name of a file goes on after its version. -/
def ending (safely : Bool) (direction : Direction) : String :=
  (if safely then "safe." else "") ++ direction.suffix

theorem nameOf_eq (version : String) (safely : Bool) (direction : Direction) :
    (nameOf version safely direction).toList =
      version.toList ++ '.' :: (ending safely direction).toList := by
  rw [nameOf, String.toList_append, String.toList_append, List.append_assoc]
  cases safely <;> cases direction <;> rfl

theorem readEnding_ending (safely : Bool) (direction : Direction) :
    readEnding (ending safely direction).toList = some (safely, direction) := by
  cases safely <;> cases direction <;> decide

theorem eq_ending_of_readEnding {cs : List Char} {safely : Bool} {direction : Direction}
    (h : readEnding cs = some (safely, direction)) : cs = (ending safely direction).toList := by
  have htext {text : String} (h : String.ofList cs = text) : cs = text.toList := by
    rw [← h, String.toList_ofList]
  unfold readEnding at h
  dsimp only at h
  split_ifs at h with hup hdown hup hdown <;> cases h
  · exact htext hup
  · exact htext hdown
  · exact htext hup
  · exact htext hdown

/-- The name of a file is read exactly if it is written with a version, a marker where the script is
safe, and the ending of its direction. -/
theorem parse?_eq_some_iff :
    parse? path = some f ↔
      f.path = path ∧ fileName? path = some (nameOf f.version f.safely f.direction) ∧
        Version.validate f.version = .ok () := by
  simp only [parse?, Option.bind_eq_bind, Option.bind_eq_some_iff]
  constructor
  · rintro ⟨name, hname, ⟨version, rest⟩, hcut, ⟨safely, direction⟩, hending, h⟩
    split at h
    · rename_i hversion
      cases h
      refine ⟨rfl, ?_, Version.validate_eq_ok.mpr (by rwa [String.toList_ofList])⟩
      rcases cutFirst_cases '.' name.toList with ⟨hnone, -⟩ | ⟨before, after, hsome, hparts, -⟩
      · rw [hnone] at hcut
        cases hcut
      · rw [hsome] at hcut
        cases hcut
        have hrest : rest = (ending safely direction).toList := eq_ending_of_readEnding hending
        rw [hname, Option.some_inj, ← String.toList_inj, nameOf_eq, hparts, hrest,
          String.toList_ofList]
    · cases h
  · rintro ⟨rfl, hname, hversion⟩
    rw [Version.validate_eq_ok] at hversion
    have hparts := (Version.isVersion_iff.mp hversion).parts
    refine ⟨_, hname, (f.version.toList, _), ?_, (f.safely, f.direction), readEnding_ending _ _, ?_⟩
    · rw [nameOf_eq]
      exact cutFirst_append fun c hc => (hparts c hc).ne_separator.1
    · rw [if_pos hversion, String.ofList_toList]

/-- A name without a separator is the last part of its path. -/
theorem fileName?_of_parts {name : String} (hname : ∀ c ∈ name.toList, c ≠ '/')
    (hempty : name ≠ "") (hpoint : name ≠ ".") (hup : name ≠ "..") :
    fileName? name = some name := by
  have hpieces : pieces (· == '/') name.toList = [name.toList] :=
    pieces_of_forall fun c hc => beq_false_of_ne (hname c hc)
  have hparts : pathParts name = [name] := by
    rw [pathParts, hpieces, List.map_singleton, String.ofList_toList, List.filter_cons_of_pos]
    · rfl
    · simp [hempty, hpoint]
  simp [fileName?, hparts, hup]

/-- A version can be carried by the names of files, in each direction and with each marker. -/
theorem parse?_nameOf {version : String} (h : Version.validate version = .ok ()) (safely : Bool)
    (direction : Direction) : parse? (nameOf version safely direction) =
      some ⟨version, safely, direction, nameOf version safely direction⟩ := by
  have hparts := (Version.isVersion_iff.mp (Version.validate_eq_ok.mp h)).parts
  -- too long to be empty, a point or two points, which name no file
  have hlong : 7 ≤ (nameOf version safely direction).toList.length := by
    rw [nameOf_eq, List.length_append, List.length_cons]
    cases safely <;> cases direction <;> simp [ending, Direction.suffix]
  refine parse?_eq_some_iff.mpr ⟨rfl, fileName?_of_parts (fun c hc => ?_) ?_ ?_ ?_, h⟩
  · rw [nameOf_eq, List.mem_append] at hc
    rcases hc with hc | hc
    · exact (hparts c hc).ne_separator.2
    · have hending : '/' ∉ '.' :: (ending safely direction).toList := by
        cases safely <;> cases direction <;> decide
      rintro rfl
      exact hending hc
  all_goals
    intro heq
    rw [heq] at hlong
    exact absurd hlong (by decide)

/-- What is read off the name of a file is a version. -/
theorem validate_of_parse? (h : parse? path = some f) : Version.validate f.version = .ok () :=
  (parse?_eq_some_iff.mp h).2.2

/-- Files have the same name exactly if they agree in version, marker and direction. -/
theorem fileName?_eq_iff (h : parse? path = some f) (h' : parse? path' = some f') :
    fileName? path = fileName? path' ↔
      f.version = f'.version ∧ f.safely = f'.safely ∧ f.direction = f'.direction := by
  obtain ⟨hpath, hname, -⟩ := parse?_eq_some_iff.mp h
  obtain ⟨-, hname', hversion'⟩ := parse?_eq_some_iff.mp h'
  constructor
  · intro heq
    have hagain : parse? path = some ⟨f'.version, f'.safely, f'.direction, path⟩ :=
      parse?_eq_some_iff.mpr ⟨rfl, heq.trans hname', hversion'⟩
    rw [h] at hagain
    cases hagain
    exact ⟨rfl, rfl, rfl⟩
  · rintro ⟨hversion, hsafely, hdirection⟩
    rw [hname, hname', hversion, hsafely, hdirection]

/-- The two names of a new migration carry its stamp and its name; what is no name is refused. -/
theorem newNames_eq (name : String) (at_ : Instant) :
    newNames name at_ =
      if Version.isName name.toList then
        .ok (nameOf (at_.stamp ++ "_" ++ name) true .up,
          nameOf (at_.stamp ++ "_" ++ name) true .down)
      else .error (.invalidMigrationName name) := by
  rw [newNames, Version.create]
  split <;> rfl

/-- Both names of a new migration are read as the files of one version. -/
theorem parse?_of_newNames {name up down : String} {at_ : Instant}
    (h : newNames name at_ = .ok (up, down)) :
    ∃ version, parse? up = some ⟨version, true, .up, up⟩ ∧
      parse? down = some ⟨version, true, .down, down⟩ := by
  rw [newNames_eq] at h
  split at h
  · rename_i hname
    obtain ⟨hup, hdown⟩ := Prod.mk.inj (Except.ok.inj h)
    have hversion := Version.validate_eq_ok.mpr
      (Version.isVersion_iff.mpr (Version.spells_stamp hname at_))
    rw [← hup, ← hdown]
    exact ⟨_, parse?_nameOf hversion true .up, parse?_nameOf hversion true .down⟩
  · exact nomatch h

/-- A migration can be made exactly if it has a name. -/
theorem newNames_isOk_iff {name : String} {at_ : Instant} :
    (∃ names, newNames name at_ = .ok names) ↔
      name ≠ "" ∧ ∀ c ∈ name.toList, c.isAlphanum = true ∨ c = '_' := by
  have hplain (c : Char) : Identifier.isPlain c = true ↔ c.isAlphanum = true ∨ c = '_' := by
    rw [Identifier.isPlain, Bool.or_eq_true, beq_iff_eq]
  rw [newNames_eq, ← String.toList_eq_nil_iff.ne]
  simp only [← hplain]
  rw [← Version.isName_iff]
  split
  · rename_i hname
    exact ⟨fun _ => hname, fun _ => ⟨_, rfl⟩⟩
  · rename_i hname
    refine ⟨?_, fun h => absurd h hname⟩
    rintro ⟨names, ⟨⟩⟩

end MigrationFile

/-- The versions are what the names of files carry. -/
theorem Version.validate_iff_carried {version : String} :
    validate version = .ok () ↔
      ∃ path f, MigrationFile.parse? path = some f ∧ f.version = version := by
  constructor
  · exact fun h => ⟨_, _, MigrationFile.parse?_nameOf h false .up, rfl⟩
  · rintro ⟨path, f, h, rfl⟩
    exact MigrationFile.validate_of_parse? h

theorem Files.validate_of_scriptFiles {files : Files} {directory : String}
    {scripts : List MigrationFile} (h : files.scriptFiles directory = .ok scripts)
    {f : MigrationFile} (hf : f ∈ scripts) : Version.validate f.version = .ok () := by
  unfold Files.scriptFiles at h
  split at h
  · cases h
  · cases h
    obtain ⟨⟨name, e⟩, -, hparse⟩ := List.mem_filterMap.mp hf
    cases e with
    | file bytes => exact MigrationFile.validate_of_parse? hparse
    | directory => cases hparse
    | link target => cases hparse

/-- **File names are written by one grammar.**

* A version is checked by the grammar of versions.
* A name is read as a file exactly if it is the version, the marker where the script is safe, and
  the ending of the direction; the version must be one.
* So files have one name exactly if they agree in version, marker and direction.
* The versions are those that some name carries.
* A new migration gets its names exactly if its own name is made of letters, digits and underscores
  and not empty; then, at every instant, both names are read, with one version, both safe, up and
  down. -/
theorem MigrationFile.file_names_written :
    (∀ version, Version.validate version = .ok () ↔ Version.Spells version.toList) ∧
    (∀ path f, parse? path = some f ↔ f.path = path ∧
      fileName? path = some (f.version ++ (if f.safely then ".safe" else "") ++ "." ++
        f.direction.suffix) ∧ Version.validate f.version = .ok ()) ∧
    (∀ path path' f f', parse? path = some f → parse? path' = some f' →
      (fileName? path = fileName? path' ↔
        f.version = f'.version ∧ f.safely = f'.safely ∧ f.direction = f'.direction)) ∧
    (∀ version, Version.validate version = .ok () ↔
      ∃ path f, parse? path = some f ∧ f.version = version) ∧
    ∀ name at_,
      ((∃ names, newNames name at_ = .ok names) ↔
        name ≠ "" ∧ ∀ c ∈ name.toList, c.isAlphanum = true ∨ c = '_') ∧
      ∀ up down, newNames name at_ = .ok (up, down) → ∃ version,
        parse? up = some ⟨version, true, .up, up⟩ ∧
          parse? down = some ⟨version, true, .down, down⟩ := by
  refine ⟨fun version => Version.validate_eq_ok.trans Version.isVersion_iff, fun path f => ?_,
    fun _ _ _ _ => fileName?_eq_iff, fun _ => Version.validate_iff_carried,
    fun _ _ => ⟨newNames_isOk_iff, fun _ _ => parse?_of_newNames⟩⟩
  have hname : nameOf f.version f.safely f.direction =
      f.version ++ (if f.safely then ".safe" else "") ++ "." ++ f.direction.suffix := by
    rw [nameOf, ← String.toList_inj]
    cases f.safely <;> simp
  rw [← hname]
  exact parse?_eq_some_iff

/-- So it is with a new migration at a leap second. -/
theorem MigrationFile.file_names_written_leap :
    newNames "create_users" ⟨1483228799, 1000000000⟩ =
        .ok ("161231_235960_create_users.safe.up.sql", "161231_235960_create_users.safe.down.sql") ∧
      ∃ version, parse? "161231_235960_create_users.safe.up.sql" =
          some ⟨version, true, .up, "161231_235960_create_users.safe.up.sql"⟩ ∧
        parse? "161231_235960_create_users.safe.down.sql" =
          some ⟨version, true, .down, "161231_235960_create_users.safe.down.sql"⟩ := by
  have hnames : newNames "create_users" ⟨1483228799, 1000000000⟩ =
      .ok ("161231_235960_create_users.safe.up.sql",
        "161231_235960_create_users.safe.down.sql") := by
    rw [newNames_eq, if_pos (by decide +kernel)]
    exact congrArg Except.ok (Prod.ext (by decide +kernel) (by decide +kernel))
  exact ⟨hnames, (file_names_written.2.2.2.2 "create_users" ⟨1483228799, 1000000000⟩).2 _ _ hnames⟩

end SchemaMigration
