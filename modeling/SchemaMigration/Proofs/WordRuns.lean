import SchemaMigration.Proofs.TextCutting
/-! # The runs of a text

The *runs* of a text are its longest stretches without blanks, in order (`Runs`): blanks stand in
front of them, behind them and between any two of them, and nothing else does.  Every text has its
runs and no others, and they are its words (`runs_iff`).

A squeezed text has the runs of the text that was squeezed, with one space between neighbours
(`runs_intercalate`, `spaced_intercalate`).  So it is a normal form: to squeeze it again changes
nothing, and two texts are squeezed into the same text just when they have the same runs
(`squeezed_normal_form`). -/
namespace SchemaMigration.Text

variable {cs gap run rest : List Char} {runs : List (List Char)} {c : Char}

/-! ### Blanks and runs -/

/-- The code points that Unicode gives the property `White_Space`. -/
def whiteSpace : List Nat :=
  [0x9, 0xA, 0xB, 0xC, 0xD, 0x20, 0x85, 0xA0, 0x1680, 0x2000, 0x2001, 0x2002, 0x2003, 0x2004,
    0x2005, 0x2006, 0x2007, 0x2008, 0x2009, 0x200A, 0x2028, 0x2029, 0x202F, 0x205F, 0x3000]

theorem isBlank_iff_mem_whiteSpace (c : Char) : isBlank c = true ↔ c.toNat ∈ whiteSpace := by
  simp only [isBlank, whiteSpace, Bool.or_eq_true, Bool.and_eq_true, decide_eq_true_eq,
    beq_iff_eq, List.mem_cons, List.not_mem_nil, or_false]
  omega

/-- A run: characters that are not blank, at least one. -/
structure IsRun (run : List Char) : Prop where
  nonempty : run ≠ []
  solid : ∀ c ∈ run, isBlank c = false

/-- The runs of a text in order.  Behind a run the text ends or a blank follows, so that no run
could go on. -/
inductive Runs : List Char → List (List Char) → Prop
  | none {gap : List Char} (hgap : ∀ c ∈ gap, isBlank c = true) : Runs gap []
  | cons {gap run rest : List Char} {runs : List (List Char)}
      (hgap : ∀ c ∈ gap, isBlank c = true) (hrun : IsRun run)
      (hend : ∀ c ∈ rest.head?, isBlank c = true) (hrest : Runs rest runs) :
      Runs (gap ++ (run ++ rest)) (run :: runs)

/-- A run at the start of a text. -/
theorem Runs.run_append (hrun : IsRun run) (hend : ∀ c ∈ rest.head?, isBlank c = true)
    (hrest : Runs rest runs) : Runs (run ++ rest) (run :: runs) := by
  have hnone : ∀ c ∈ ([] : List Char), isBlank c = true := nofun
  exact .cons hnone hrun hend hrest

/-- A blank in front of a text is in no run. -/
theorem Runs.blank_cons (hc : isBlank c = true) (h : Runs cs runs) : Runs (c :: cs) runs := by
  cases h with
  | none hgap => exact .none (List.forall_mem_cons.mpr ⟨hc, hgap⟩)
  | cons hgap hrun hend hrest => exact .cons (List.forall_mem_cons.mpr ⟨hc, hgap⟩) hrun hend hrest

/-- Any other character lengthens the run that the text begins with, or is a run of its own. -/
theorem Runs.solid_cons (hc : isBlank c = false) (h : Runs cs runs) :
    ∃ runs', Runs (c :: cs) runs' := by
  have halone : IsRun [c] := ⟨List.cons_ne_nil c [], by simpa using hc⟩
  have hhead {gap rest : List Char} (hgap : ∀ c ∈ gap, isBlank c = true) (hne : gap ≠ []) :
      ∀ c ∈ (gap ++ rest).head?, isBlank c = true := by
    rw [List.head?_append_of_ne_nil gap hne]
    exact fun d hd => hgap d (List.mem_of_mem_head? hd)
  cases h with
  | none hgap =>
    exact ⟨_, Runs.run_append halone (fun d hd => hgap d (List.mem_of_mem_head? hd)) (.none hgap)⟩
  | @cons gap run rest runs hgap hrun hend hrest =>
    by_cases hne : gap = []
    · subst hne
      have hlonger : IsRun (c :: run) :=
        ⟨List.cons_ne_nil c run, List.forall_mem_cons.mpr ⟨hc, hrun.solid⟩⟩
      exact ⟨_, .run_append hlonger hend hrest⟩
    · exact ⟨_, .run_append halone (hhead hgap hne) (.cons hgap hrun hend hrest)⟩

theorem exists_runs (cs : List Char) : ∃ runs, Runs cs runs := by
  induction cs with
  | nil => exact ⟨[], .none nofun⟩
  | cons c cs ih =>
    obtain ⟨runs, hruns⟩ := ih
    cases hc : isBlank c with
    | true => exact ⟨runs, hruns.blank_cons hc⟩
    | false => exact hruns.solid_cons hc

/-! ### Words are runs -/

theorem words_blank_cons (hc : isBlank c = true) (cs : List Char) : words (c :: cs) = words cs := by
  rw [words, pieces_cons, if_pos hc]
  rfl

theorem words_gap_append (hgap : ∀ c ∈ gap, isBlank c = true) (cs : List Char) :
    words (gap ++ cs) = words cs := by
  induction gap with
  | nil => rfl
  | cons c gap ih =>
    obtain ⟨hc, hgap⟩ := List.forall_mem_cons.mp hgap
    rw [List.cons_append, words_blank_cons hc, ih hgap]

theorem words_run_append (hrun : IsRun run) (hend : ∀ c ∈ rest.head?, isBlank c = true) :
    words (run ++ rest) = run :: words rest := by
  have hkept (parts : List (List Char)) :
      (run :: parts).filter (fun w => !w.isEmpty) = run :: parts.filter fun w => !w.isEmpty :=
    List.filter_cons_of_pos (by simpa using hrun.nonempty)
  cases rest with
  | nil =>
    rw [List.append_nil, words, pieces_of_forall hrun.solid, hkept]
    rfl
  | cons c rest =>
    have hc : isBlank c = true := hend c rfl
    rw [words_blank_cons hc, words, pieces_eq_splitOnP,
      List.splitOnP_append_cons_of_forall_mem hrun.solid c hc, hkept, ← pieces_eq_splitOnP, words]

/-- **Every text has its runs and no others: they are its words.** -/
theorem runs_iff : Runs cs runs ↔ words cs = runs := by
  have hwords {cs : List Char} {runs : List (List Char)} (h : Runs cs runs) : words cs = runs := by
    induction h with
    | @none gap hgap =>
      have := words_gap_append hgap []
      rwa [List.append_nil] at this
    | cons hgap hrun hend hrest ih =>
      rw [words_gap_append hgap, words_run_append hrun hend, ih]
  refine ⟨hwords, ?_⟩
  rintro rfl
  obtain ⟨runs, hruns⟩ := exists_runs cs
  rwa [hwords hruns]

theorem isRun_of_mem_words (h : run ∈ words cs) : IsRun run := by
  obtain ⟨hpiece, hne⟩ := List.mem_filter.mp h
  exact ⟨by simpa using hne, fun c hc => (of_mem_pieces hpiece c hc).2⟩

/-! ### Runs with one space between them -/

theorem runs_intercalate (h : ∀ run ∈ runs, IsRun run) : Runs ([' '].intercalate runs) runs := by
  induction runs with
  | nil => exact .none nofun
  | cons run runs ih =>
    obtain ⟨hrun, hruns⟩ := List.forall_mem_cons.mp h
    cases runs with
    | nil =>
      have hlast : Runs (run ++ []) [run] := .run_append hrun nofun (.none nofun)
      rw [List.intercalate_singleton]
      rwa [List.append_nil] at hlast
    | cons next runs =>
      rw [List.intercalate_cons_cons, List.append_assoc]
      have hspace : ∀ c ∈ ([' '] ++ [' '].intercalate (next :: runs)).head?, isBlank c = true := by
        rintro c ⟨⟩
        rfl
      exact .run_append hrun hspace ((ih hruns).blank_cons rfl)

/-- Blanks stand only between two characters that are not blank, and are single spaces there. -/
structure Spaced (cs : List Char) : Prop where
  first : ∀ c ∈ cs.head?, isBlank c = false
  last : ∀ c ∈ cs.getLast?, isBlank c = false
  single : ∀ before c after, cs = before ++ c :: after → isBlank c = true →
    c = ' ' ∧ (∃ d ∈ before.getLast?, isBlank d = false) ∧ ∃ d ∈ after.head?, isBlank d = false

theorem Spaced.of_solid (h : ∀ c ∈ cs, isBlank c = false) : Spaced cs where
  first c hc := h c (List.mem_of_mem_head? hc)
  last c hc := h c (List.mem_of_mem_getLast? hc)
  single before c after hcs hc := by
    have hsolid := h c (by simp [hcs])
    rw [hc] at hsolid
    cases hsolid

/-- Where a character stands in a text that is parted by a space: in front of the space, at it or
behind it. -/
theorem parted_cases {before after : List Char} (h : run ++ ' ' :: rest = before ++ c :: after) :
    c ∈ run ∨ (c = ' ' ∧ before = run ∧ after = rest) ∨
      ∃ front, before = run ++ ' ' :: front ∧ rest = front ++ c :: after := by
  rcases List.append_eq_append_iff.mp h with ⟨more, rfl, hmore⟩ | ⟨more, rfl, hmore⟩
  · rcases List.cons_eq_append_iff.mp hmore with ⟨rfl, heq⟩ | ⟨front, rfl, hfront⟩
    · obtain ⟨rfl, rfl⟩ := List.cons.inj heq
      exact .inr (.inl ⟨rfl, List.append_nil run, rfl⟩)
    · exact .inr (.inr ⟨front, rfl, hfront⟩)
  · rcases List.cons_eq_append_iff.mp hmore with ⟨rfl, heq⟩ | ⟨back, rfl, -⟩
    · obtain ⟨rfl, rfl⟩ := List.cons.inj heq
      exact .inr (.inl ⟨rfl, (List.append_nil before).symm, rfl⟩)
    · exact .inl (by simp)

/-- A run may be put in front of a text with one space between. -/
theorem Spaced.run_append (hrun : IsRun run) (hrest : Spaced rest) (hne : rest ≠ []) :
    Spaced (run ++ ' ' :: rest) where
  first := by
    rw [List.head?_append_of_ne_nil run hrun.nonempty]
    exact fun c hc => hrun.solid c (List.mem_of_mem_head? hc)
  last := by
    obtain ⟨d, ds, rfl⟩ := List.exists_cons_of_ne_nil hne
    rw [List.getLast?_append_of_ne_nil run (List.cons_ne_nil _ _), List.getLast?_cons_cons]
    exact hrest.last
  single before c after hcs hc := by
    rcases parted_cases hcs with hmem | ⟨hspace, rfl, rfl⟩ | ⟨front, rfl, hfront⟩
    · rw [hrun.solid c hmem] at hc
      cases hc
    · obtain ⟨d, hd⟩ := Option.isSome_iff_exists.mp (List.getLast?_isSome.mpr hrun.nonempty)
      obtain ⟨e, es, rfl⟩ := List.exists_cons_of_ne_nil hne
      exact ⟨hspace, ⟨d, hd, hrun.solid d (List.mem_of_mem_getLast? hd)⟩, e, rfl,
        hrest.first e rfl⟩
    · obtain ⟨hspace, ⟨d, hd, hsolid⟩, hafter⟩ := hrest.single front c after hfront hc
      refine ⟨hspace, ⟨d, ?_, hsolid⟩, hafter⟩
      rw [List.append_cons, List.getLast?_append, Option.mem_def.mp hd]
      rfl

theorem spaced_intercalate (h : ∀ run ∈ runs, IsRun run) : Spaced ([' '].intercalate runs) := by
  induction runs with
  | nil => exact .of_solid nofun
  | cons run runs ih =>
    obtain ⟨hrun, hruns⟩ := List.forall_mem_cons.mp h
    cases runs with
    | nil =>
      rw [List.intercalate_singleton]
      exact .of_solid hrun.solid
    | cons next runs =>
      have hne : [' '].intercalate (next :: runs) ≠ [] := fun hnil => by
        have hwords := runs_iff.mp (runs_intercalate hruns)
        rw [hnil] at hwords
        cases hwords
      rw [List.intercalate_cons_cons, List.append_assoc]
      exact .run_append hrun (ih hruns) hne

/-! ### Squeezed texts -/

theorem words_squeeze (cs : List Char) : words (squeeze cs) = words cs :=
  runs_iff.mp (runs_intercalate fun _ => isRun_of_mem_words)

/-- Squeezing a text again changes nothing. -/
theorem squeeze_squeeze (cs : List Char) : squeeze (squeeze cs) = squeeze cs := by
  rw [squeeze, words_squeeze, squeeze]

/-- Texts are squeezed into the same text just when they have the same words. -/
theorem squeeze_eq_squeeze_iff {cs ds : List Char} :
    squeeze cs = squeeze ds ↔ words cs = words ds := by
  constructor
  · intro h
    rw [← words_squeeze cs, h, words_squeeze]
  · intro h
    rw [squeeze, h, squeeze]

theorem toList_squeezed (s : String) : (squeezed s).toList = squeeze s.toList :=
  String.toList_ofList

/-- **A squeezed text is the normal form of all texts with its runs.**  Blanks are the characters
that Unicode calls white space.  In the squeezed text they are single spaces between characters
that are not blank; it has the runs of the text it was made from; it stays as it is when it is
squeezed again; and two texts have it in common just when they have their runs in common. -/
theorem squeezed_normal_form (s : String) :
    (∀ c, isBlank c = true ↔ c.toNat ∈ whiteSpace) ∧
    Spaced (squeezed s).toList ∧
    (∃ runs, ∀ others, (Runs s.toList others ↔ others = runs) ∧
      (Runs (squeezed s).toList others ↔ others = runs)) ∧
    squeezed (squeezed s) = squeezed s ∧
    ∀ t, squeezed s = squeezed t ↔ ∃ runs, Runs s.toList runs ∧ Runs t.toList runs := by
  refine ⟨isBlank_iff_mem_whiteSpace, ?_, ⟨words s.toList, fun others => ⟨?_, ?_⟩⟩, ?_, fun t => ?_⟩
  · rw [toList_squeezed]
    exact spaced_intercalate fun _ => isRun_of_mem_words
  · rw [runs_iff, eq_comm]
  · rw [toList_squeezed, runs_iff, words_squeeze, eq_comm]
  · rw [squeezed, toList_squeezed, squeeze_squeeze, squeezed]
  · rw [squeezed, squeezed, String.ofList_inj, squeeze_eq_squeeze_iff]
    constructor
    · exact fun h => ⟨words s.toList, runs_iff.mpr rfl, runs_iff.mpr h.symm⟩
    · rintro ⟨runs, hs, ht⟩
      rw [runs_iff.mp hs, runs_iff.mp ht]

/-- A tab, a line end, a no-break space and an ideographic space are blanks, a zero-width space
is not. -/
example : squeezed "\t SELECT\r\n\u00A0 1,\u3000\u200B2 " = "SELECT 1, \u200B2" := by decide +kernel

end SchemaMigration.Text
