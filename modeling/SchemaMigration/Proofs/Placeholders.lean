import Mathlib.Data.List.Count
import SchemaMigration.Proofs.StatementBinding
/-! # What the arguments of a statement replace

A placeholder is a question mark in code.  Here a statement is read as one row of characters, each
with the kind of the section it stands in (`marked`), so that a question mark in quoted text or in
a comment is another mark than a placeholder.  Arguments are taken exactly if there are as many of
them as placeholders: then each placeholder becomes the literal of its argument, in order, and
every other character stays where it was (`Substituted`, `bind_substitutes`). -/
namespace SchemaMigration.ClickHouse

open Section

/-! ### Characters and where they stand -/

/-- A character with the kind of the section it stands in. -/
abbrev Mark : Type := Char × SectionKind

/-- The characters of a section, each with its kind. -/
def Section.marks (s : Section) : List Mark := s.text.map fun c => (c, s.kind)

/-- The characters of sections in order, each with the kind of its section. -/
def marked (sections : List Section) : List Mark := sections.flatMap Section.marks

/-- A question mark in code. -/
def placeholder : Mark := ('?', .code)

theorem marked_cons (s : Section) (rest : List Section) :
    marked (s :: rest) = s.marks ++ marked rest := rfl

theorem marked_append (before after : List Section) :
    marked (before ++ after) = marked before ++ marked after := List.flatMap_append

theorem map_fst_marks (s : Section) : s.marks.map Prod.fst = s.text := by
  rw [Section.marks, List.map_map]
  exact List.map_id _

/-- The characters of sections are the statement they make up. -/
theorem map_fst_marked (sections : List Section) :
    (marked sections).map Prod.fst = join sections := by
  induction sections with
  | nil => rfl
  | cons s rest ih =>
    rw [marked_cons, List.map_append, map_fst_marks, ih]
    rfl

theorem placeholder_notMem {s : Section} (hs : s.kind ≠ .code) : placeholder ∉ s.marks := by
  intro hmem
  obtain ⟨c, -, hc⟩ := List.mem_map.mp hmem
  exact hs (congrArg Prod.snd hc)

theorem count_marks (s : Section) :
    s.marks.count placeholder = if s.kind = .code then s.text.count '?' else 0 := by
  by_cases hs : s.kind = .code
  · have hinj : Function.Injective fun c : Char => (c, s.kind) :=
      fun _ _ h => congrArg Prod.fst h
    have hmark : placeholder = ('?', s.kind) := congrArg (Prod.mk '?') hs.symm
    rw [if_pos hs, hmark]
    exact List.count_map_of_injective s.text _ hinj '?'
  · rw [if_neg hs]
    exact List.count_eq_zero.mpr (placeholder_notMem hs)

/-- Sections have as many placeholders as question marks that stand in code. -/
theorem count_marked (sections : List Section) :
    (marked sections).count placeholder = placeholders sections := by
  induction sections with
  | nil => rfl
  | cons s rest ih => rw [marked_cons, List.count_append, count_marks, ih, placeholders_cons]

/-! ### Marks with their placeholders replaced -/

/-- The text is what the marks say when each placeholder is replaced by the literal of its
argument: the marks are cut at their placeholders, one for each argument, and what stands in
front of the first one and behind each of them is kept. -/
def Substituted (marks : List Mark) (args : List Value) (text : List Char) : Prop :=
  ∃ (first : List Mark) (holes : List (Value × List Mark)),
    marks = first ++ (holes.flatMap fun hole => placeholder :: hole.2) ∧
    placeholder ∉ first ∧ (∀ hole ∈ holes, placeholder ∉ hole.2) ∧
    holes.map Prod.fst = args ∧
    text = first.map Prod.fst ++ holes.flatMap fun hole => literal hole.1 ++ hole.2.map Prod.fst

namespace Substituted

theorem nil : Substituted [] [] [] := ⟨[], [], rfl, List.not_mem_nil, nofun, rfl, rfl⟩

/-- A mark that is no placeholder is kept in front. -/
theorem cons {mark : Mark} (hmark : mark ≠ placeholder) {marks : List Mark} {args : List Value}
    {text : List Char} (h : Substituted marks args text) :
    Substituted (mark :: marks) args (mark.1 :: text) := by
  obtain ⟨first, holes, rfl, hfirst, hholes, hargs, rfl⟩ := h
  refine ⟨mark :: first, holes, rfl, fun hmem => ?_, hholes, hargs, rfl⟩
  rcases List.mem_cons.mp hmem with heq | hmem
  · exact hmark heq.symm
  · exact hfirst hmem

/-- A placeholder in front takes an argument of its own. -/
theorem cons_placeholder (v : Value) {marks : List Mark} {args : List Value} {text : List Char}
    (h : Substituted marks args text) :
    Substituted (placeholder :: marks) (v :: args) (literal v ++ text) := by
  obtain ⟨first, holes, rfl, hfirst, hholes, rfl, rfl⟩ := h
  -- what was in front of all arguments is now behind the first one
  refine ⟨[], (v, first) :: holes, rfl, List.not_mem_nil, fun hole hmem => ?_, rfl, ?_⟩
  · rcases List.mem_cons.mp hmem with rfl | hmem
    · exact hfirst
    · exact hholes hole hmem
  · exact (List.append_assoc ..).symm

/-- Marks without a placeholder are kept in front. -/
theorem append {front : List Mark} (hfront : placeholder ∉ front) {marks : List Mark}
    {args : List Value} {text : List Char} (h : Substituted marks args text) :
    Substituted (front ++ marks) args (front.map Prod.fst ++ text) := by
  induction front with
  | nil => exact h
  | cons mark front ih =>
    have hmark : mark ≠ placeholder := fun heq => hfront (heq ▸ List.mem_cons_self)
    exact cons hmark (ih fun hmem => hfront (List.mem_cons_of_mem _ hmem))

end Substituted

/-! ### Filling in the literals -/

theorem drop_literals (n : Nat) (args : List Value) :
    (literals args).drop n = literals (args.drop n) := by
  induction args generalizing n with
  | nil => rw [List.drop_nil]; exact List.drop_nil
  | cons v args ih =>
    cases n with
    | zero => rfl
    | succ n => exact ih n

theorem fillCode_placeholder (l : List Char) (left : List (List Char)) (cs : List Char) :
    (fillCode (l :: left) ('?' :: cs)).1 = l ++ (fillCode left cs).1 := rfl

theorem fillCode_kept {c : Char} (hc : c ≠ '?') (left : List (List Char)) (cs : List Char) :
    (fillCode left (c :: cs)).1 = c :: (fillCode left cs).1 := by
  rw [fillCode]
  exact fun _ _ _ heq => absurd heq hc

/-- What code leaves of the literals is taken by what stands behind it. -/
theorem fillCode_left (args : List Value) (cs : List Char) :
    (fillCode (literals args) cs).2 = literals (args.drop (cs.count '?')) := by
  rw [fillCode_eq, ← drop_literals]
  exact (codePieces_literals _ _).2

/-- Code in front has its placeholders replaced by the first arguments. -/
theorem fillCode_substituted {cs : List Char} {args rest : List Value} {marks : List Mark}
    {text : List Char} (hcount : cs.count '?' ≤ args.length) (h : Substituted marks rest text) :
    Substituted ((cs.map fun c => (c, .code)) ++ marks) (args.take (cs.count '?') ++ rest)
      ((fillCode (literals args) cs).1 ++ text) := by
  induction cs generalizing args with
  | nil => exact h
  | cons c cs ih =>
    by_cases hc : c = '?'
    · subst hc
      rw [List.count_cons_self] at hcount ⊢
      cases args with
      | nil => exact absurd hcount (Nat.not_succ_le_zero _)
      | cons v args =>
        rw [literals, fillCode_placeholder, List.append_assoc]
        exact Substituted.cons_placeholder v (ih (Nat.le_of_succ_le_succ hcount))
    · have hmark : (c, SectionKind.code) ≠ placeholder := fun heq => hc (congrArg Prod.fst heq)
      rw [List.count_cons_of_ne hc] at hcount ⊢
      rw [fillCode_kept hc]
      exact Substituted.cons hmark (ih hcount)

theorem fill_code {s : Section} (hs : s.kind = .code) (args : List Value) (rest : List Section) :
    fill (literals args) (s :: rest) = (fillCode (literals args) s.text).1 ++
      fill (literals (args.drop (s.text.count '?'))) rest := by
  rw [← fillCode_left, fill, if_pos hs]

/-- Sections have their placeholders replaced by the first arguments. -/
theorem fill_substituted {sections : List Section} {args : List Value}
    (h : placeholders sections ≤ args.length) :
    Substituted (marked sections) (args.take (placeholders sections))
      (fill (literals args) sections) := by
  induction sections generalizing args with
  | nil => exact Substituted.nil
  | cons s rest ih =>
    rw [placeholders_cons] at h ⊢
    rw [marked_cons]
    by_cases hs : s.kind = .code
    · rw [if_pos hs] at h ⊢
      have hrest : placeholders rest ≤ (args.drop (s.text.count '?')).length := by
        rw [List.length_drop]
        omega
      rw [fill_code hs, List.take_add, Section.marks, hs]
      exact fillCode_substituted (by omega) (ih hrest)
    · rw [if_neg hs, Nat.zero_add] at h ⊢
      have happend := Substituted.append (placeholder_notMem hs) (ih h)
      rw [map_fst_marks] at happend
      rw [fill, if_neg hs]
      exact happend

/-- As many arguments as placeholders are all put in. -/
theorem fill_substituted_all {sections : List Section} {args : List Value}
    (h : placeholders sections = args.length) :
    Substituted (marked sections) args (fill (literals args) sections) := by
  have hfill := fill_substituted h.le
  rwa [h, List.take_length] at hfill

/-- The sections behind others take the arguments that those leave. -/
theorem fill_append (args : List Value) (before after : List Section) :
    fill (literals args) (before ++ after) = fill (literals args) before ++
      fill (literals (args.drop (placeholders before))) after := by
  induction before generalizing args with
  | nil => rfl
  | cons s before ih =>
    rw [placeholders_cons, List.cons_append]
    by_cases hs : s.kind = .code
    · rw [fill_code hs, fill_code hs, ih, List.drop_drop, if_pos hs, List.append_assoc]
    · rw [fill, if_neg hs, fill, if_neg hs, ih, if_neg hs, Nat.zero_add, List.append_assoc]

/-- A section that is not code stands as it is between what is in front of it and what is behind
it, each with its own arguments. -/
theorem fill_around {before after : List Section} {s : Section} {args : List Value}
    (hs : s.kind ≠ .code) (h : placeholders (before ++ s :: after) = args.length) :
    ∃ left right, fill (literals args) (before ++ s :: after) = left ++ s.text ++ right ∧
      Substituted (marked before) (args.take (placeholders before)) left ∧
      Substituted (marked after) (args.drop (placeholders before)) right := by
  have hsum : placeholders before + placeholders after = args.length := by
    rw [← h, ← count_marked (before ++ _), marked_append, List.count_append, count_marked,
      count_marked, placeholders_cons, if_neg hs, Nat.zero_add]
  have hlength : placeholders after = (args.drop (placeholders before)).length := by
    rw [List.length_drop]
    omega
  refine ⟨_, fill (literals (args.drop (placeholders before))) after, ?_,
    fill_substituted (by omega), fill_substituted_all hlength⟩
  rw [fill_append, fill, if_neg hs, List.append_assoc]

/-! ### Statements with arguments -/

/-- Arguments fill the statement, or there are too few of them, or too many. -/
theorem bind_cases (query : String) {args : List Value} (hargs : args ≠ []) :
    let sections := all query.toList
    let count := placeholders sections
    (count = args.length ∧
        bind query args = .ok (String.ofList (fill (literals args) sections))) ∨
      (args.length < count ∧ bind query args = .error (.bind (.missing args.length))) ∨
      (count < args.length ∧ bind query args = .error (.bind (.unused count args.length))) := by
  intro sections count
  rcases Nat.lt_trichotomy count args.length with hmany | hexact | hfew
  · refine .inr (.inr ⟨hmany, ?_⟩)
    unfold bind
    rw [if_neg (by simpa using hargs), if_neg (Nat.lt_asymm hmany), if_pos hmany]
  · exact .inl ⟨hexact, bind_of_count hargs hexact⟩
  · refine .inr (.inl ⟨hfew, ?_⟩)
    unfold bind
    rw [if_neg (by simpa using hargs), if_pos hfew]

theorem exists_bind_ok_iff (query : String) {args : List Value} (hargs : args ≠ []) :
    (∃ sql, bind query args = .ok sql) ↔ placeholders (all query.toList) = args.length := by
  rcases bind_cases query hargs with ⟨hexact, hbind⟩ | ⟨hfew, hbind⟩ | ⟨hmany, hbind⟩
  · exact iff_of_true ⟨_, hbind⟩ hexact
  · refine iff_of_false ?_ hfew.ne'
    rintro ⟨sql, hok⟩
    cases hbind.symm.trans hok
  · refine iff_of_false ?_ hmany.ne
    rintro ⟨sql, hok⟩
    cases hbind.symm.trans hok

/-- The failure tells whether there are too few arguments or too many. -/
theorem bind_error {query : String} {args : List Value} {failure : Failure}
    (h : bind query args = .error failure) :
    let count := placeholders (all query.toList)
    (args.length < count ∧ failure = .bind (.missing args.length)) ∨
      (count < args.length ∧ failure = .bind (.unused count args.length)) := by
  have hargs : args ≠ [] := by
    rintro rfl
    cases h
  rcases bind_cases query hargs with ⟨hexact, hbind⟩ | ⟨hfew, hbind⟩ | ⟨hmany, hbind⟩
  · cases hbind.symm.trans h
  · cases hbind.symm.trans h
    exact .inl ⟨hfew, rfl⟩
  · cases hbind.symm.trans h
    exact .inr ⟨hmany, rfl⟩

/-- A statement takes arguments exactly if its code has one question mark for each of them.  Each
of these then becomes the literal of its argument, in order, and every other character stays: a
quoted text or a comment as a whole, between what the arguments of the code before it and those
of the code behind it were put into.  Without arguments nothing is replaced. -/
theorem bind_substitutes (query : String) (args : List Value) :
    let sections := all query.toList
    let count := (marked sections).count placeholder
    (marked sections).map Prod.fst = query.toList ∧
    (args = [] → bind query args = .ok query) ∧
    (args ≠ [] → ((∃ sql, bind query args = .ok sql) ↔ count = args.length)) ∧
    (∀ failure, bind query args = .error failure →
      (args.length < count ∧ failure = .bind (.missing args.length)) ∨
        (count < args.length ∧ failure = .bind (.unused count args.length))) ∧
    (args ≠ [] → ∀ sql, bind query args = .ok sql →
      Substituted (marked sections) args sql.toList ∧
      ∀ before s after, sections = before ++ s :: after → s.kind ≠ .code →
        let taken := (marked before).count placeholder
        ∃ left right, sql.toList = left ++ s.text ++ right ∧
          Substituted (marked before) (args.take taken) left ∧
          Substituted (marked after) (args.drop taken) right) := by
  intro sections count
  have hcount : count = placeholders sections := count_marked sections
  rw [hcount]
  refine ⟨by rw [map_fst_marked, join_all], ?_, exists_bind_ok_iff query, fun _ => bind_error,
    fun hargs sql hok => ?_⟩
  · rintro rfl
    rfl
  have hexact : placeholders sections = args.length :=
    (exists_bind_ok_iff query hargs).mp ⟨sql, hok⟩
  rw [(bind_ok hok).1]
  refine ⟨fill_substituted_all hexact, fun before s after hsections hs => ?_⟩
  have hlength : placeholders (before ++ s :: after) = args.length := hsections ▸ hexact
  have haround := fill_around hs hlength
  rwa [← hsections, ← count_marked before] at haround

theorem bind_substitutes_quoted_mark :
    bind "SELECT '?', ? -- ?\n, ?" [.int 1, .text "a?"] =
        .ok "SELECT '?', 1 -- ?\n, 'a?'" ∧
      Substituted (marked (all "SELECT '?', ? -- ?\n, ?".toList)) [.int 1, .text "a?"]
        "SELECT '?', 1 -- ?\n, 'a?'".toList := by
  have hbind : bind "SELECT '?', ? -- ?\n, ?" [.int 1, .text "a?"] =
      .ok "SELECT '?', 1 -- ?\n, 'a?'" :=
    (bind_of_count (by simp) (by decide +kernel)).trans (congrArg _ (by decide +kernel))
  have hsubstitutes := (bind_substitutes "SELECT '?', ? -- ?\n, ?" [.int 1, .text "a?"]).2.2.2.2
  exact ⟨hbind, (hsubstitutes (by simp) _ hbind).1⟩

end SchemaMigration.ClickHouse
