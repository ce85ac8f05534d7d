import Mathlib.Data.List.Chain
import SchemaMigration.Proofs.OutputFormat
/-! # The forms of sections

The sections of a statement put together are the statement, none is empty and no two neighbours are
code (`parted_all`).  Each has one of a few forms (`Formed`).  Code holds no quote and no mark that
opens a comment.  A quoted text ends with the quote it begins with, the first that no backslash
takes along, and a comment with the first mark that closes it; one that is never closed is the last
section. -/
namespace SchemaMigration.ClickHouse.Section

open Text

variable {cs inside : List Char} {quote : Char} {s : Section} {after : List Section}

/-! ### Forms -/

/-- What quoted text holds before it is closed: no quote of its kind, unless a backslash takes it
along. -/
inductive Inside (quote : Char) : List Char → Prop
  | nil : Inside quote []
  | plain {c : Char} {cs : List Char} (hquote : c ≠ quote) (hslash : c ≠ '\\')
      (h : Inside quote cs) : Inside quote (c :: cs)
  | pair {c : Char} {cs : List Char} (h : Inside quote cs) : Inside quote ('\\' :: c :: cs)

/-- The form of a section in front of others. -/
inductive Formed : Section → List Section → Prop
  /-- Code. -/
  | code {text : List Char} {after : List Section} (hquote : ∀ c ∈ text, isQuote c = false)
      (hline : ¬['-', '-'] <:+: text) (hblock : ¬['/', '*'] <:+: text) :
      Formed ⟨.code, text⟩ after
  /-- Quoted text that is closed. -/
  | quoted {quote : Char} {inside : List Char} {after : List Section} (hquote : isQuote quote)
      (h : Inside quote inside) : Formed ⟨.quoted, quote :: (inside ++ [quote])⟩ after
  /-- Quoted text that is not, perhaps with a backslash that has nothing to take along. -/
  | unquoted {quote : Char} {inside back : List Char} (hquote : isQuote quote)
      (h : Inside quote inside) (hback : back = [] ∨ back = ['\\']) :
      Formed ⟨.quoted, quote :: (inside ++ back)⟩ []
  /-- A comment to the end of its line. -/
  | line {text : List Char} {after : List Section} (h : '\n' ∉ text) :
      Formed ⟨.comment, '-' :: '-' :: text⟩ after
  /-- A comment up to the first mark that closes it: none ends before, not even one that shares
  its star. -/
  | block {inside : List Char} {after : List Section} (h : ¬['*', '/'] <:+: inside ++ ['*']) :
      Formed ⟨.comment, '/' :: '*' :: (inside ++ ['*', '/'])⟩ after
  /-- A comment that is not closed. -/
  | unblocked {text : List Char} (h : ¬['*', '/'] <:+: text) :
      Formed ⟨.comment, '/' :: '*' :: text⟩ []

/-- What holds of the sections of a statement. -/
structure Parted (cs : List Char) (sections : List Section) : Prop where
  joined : join sections = cs
  nonempty : ∀ s ∈ sections, s.text ≠ []
  apart : sections.IsChain fun s t => ¬(s.kind = .code ∧ t.kind = .code)
  formed : ∀ before s after, sections = before ++ s :: after → Formed s after

/-! ### Where quoted texts and comments end -/

theorem takeQuoted_form (quote : Char) (seen cs : List Char) :
    ∃ inside back, (takeQuoted quote seen cs).1 = seen.reverse ++ (inside ++ back) ∧
      Inside quote inside ∧
      (back = [quote] ∨ ((takeQuoted quote seen cs).2 = [] ∧ (back = [] ∨ back = ['\\']))) := by
  fun_induction takeQuoted quote seen cs with
  | case1 seen => exact ⟨[], [], by simp, .nil, .inr ⟨rfl, .inl rfl⟩⟩
  | case2 seen c cs ih =>
    obtain ⟨inside, back, htext, hinside, hback⟩ := ih
    exact ⟨'\\' :: c :: inside, back, by simp [htext], .pair hinside, hback⟩
  | case3 seen cs hpair => exact ⟨[], [quote], by simp, .nil, .inl rfl⟩
  | case4 seen c cs hpair hc ih =>
    by_cases hslash : c = '\\'
    · subst hslash
      cases cs with
      | nil => exact ⟨[], ['\\'], by simp [takeQuoted], .nil, .inr ⟨rfl, .inr rfl⟩⟩
      | cons d ds => exact (hpair d ds rfl rfl).elim
    · obtain ⟨inside, back, htext, hinside, hback⟩ := ih
      exact ⟨c :: inside, back, by simp [htext], .plain hc hslash hinside, hback⟩

theorem not_infix_of_cutAtFrom {sep seen : List Char} (h : cutAtFrom sep seen cs = none) :
    ¬sep <:+: cs := by
  induction cs generalizing seen with
  | nil =>
    rw [cutAtFrom] at h
    split at h
    · cases h
    · rename_i hsep
      rw [List.infix_nil]
      simpa using hsep
  | cons c cs ih =>
    rw [cutAtFrom] at h
    split at h
    · cases h
    · rename_i hfound
      rw [List.infix_cons_iff, not_or, ← List.isPrefixOf_iff_prefix]
      exact ⟨hfound, ih h⟩

/-- A text is cut at the first occurrence of a fragment: no other ends before it does. -/
theorem cutAtFrom_first {sep seen before after : List Char} (hsep : sep ≠ [])
    (h : cutAtFrom sep seen cs = some (before, after)) :
    ∃ t, before = seen.reverse ++ t ∧ cs = t ++ sep ++ after ∧ ¬sep <:+: t ++ sep.dropLast := by
  induction cs generalizing seen with
  | nil =>
    rw [cutAtFrom, if_neg (by simpa using hsep)] at h
    cases h
  | cons c cs ih =>
    rw [cutAtFrom] at h
    split at h
    · rename_i hfound
      cases h
      obtain ⟨after, hafter⟩ := List.isPrefixOf_iff_prefix.mp hfound
      refine ⟨[], by simp, by simp [← hafter], fun hinfix => ?_⟩
      have hlength := hinfix.length_le
      have hpos := List.length_pos_of_ne_nil hsep
      rw [List.nil_append, List.length_dropLast] at hlength
      omega
    · rename_i hfound
      obtain ⟨t, rfl, rfl, hfirst⟩ := ih h
      refine ⟨c :: t, by simp, rfl, ?_⟩
      have hprefix : c :: (t ++ sep.dropLast) <+: c :: (t ++ sep ++ after) := by
        rw [List.cons_prefix_cons, List.append_assoc, List.prefix_append_right_inj]
        exact ⟨rfl, (List.dropLast_prefix sep).trans (List.prefix_append sep after)⟩
      rw [List.cons_append, List.infix_cons_iff, not_or]
      exact ⟨fun h => hfound (List.isPrefixOf_iff_prefix.mpr (h.trans hprefix)), hfirst⟩

theorem takeBlock_form (cs : List Char) :
    (∃ inside, (takeBlock cs).1 = inside ++ ['*', '/'] ∧ ¬['*', '/'] <:+: inside ++ ['*']) ∨
      ((takeBlock cs).2 = [] ∧ ¬['*', '/'] <:+: (takeBlock cs).1) := by
  cases hcut : cutAt ['*', '/'] cs with
  | none =>
    have htake : takeBlock cs = (cs, []) := by simp only [takeBlock, hcut]
    rw [htake]
    exact .inr ⟨rfl, not_infix_of_cutAtFrom hcut⟩
  | some p =>
    obtain ⟨inside, after⟩ := p
    have htake : takeBlock cs = (inside ++ ['*', '/'], after) := by simp only [takeBlock, hcut]
    obtain ⟨t, rfl, -, hfirst⟩ := cutAtFrom_first (List.cons_ne_nil _ _) hcut
    rw [htake]
    exact .inl ⟨_, rfl, hfirst⟩

theorem newline_notMem_takeLine (cs : List Char) : '\n' ∉ (takeLine cs).1 := fun h => by
  have hline := List.mem_takeWhile_imp h
  simp at hline

/-! ### The sections of a statement -/

/-- What opens has the form of a comment or of quoted text.  If it was never closed, nothing
follows it. -/
theorem formed_of_opening {rest : List Char} (h : opening? cs = some (s, rest)) :
    Formed s (all rest) := by
  obtain ⟨tail, -, rfl, -⟩ | ⟨tail, -, rfl, rfl⟩ | ⟨quote, tail, hquote, -, rfl, rfl⟩ :=
    opening?_cases h
  · exact .line (newline_notMem_takeLine tail)
  · rcases takeBlock_form tail with ⟨inside, htext, hfirst⟩ | ⟨hlast, hnone⟩
    · rw [htext]
      exact .block hfirst
    · rw [hlast, all_nil]
      exact .unblocked hnone
  · obtain ⟨inside, back, htext, hinside, hback⟩ := takeQuoted_form quote [] tail
    rw [List.reverse_nil, List.nil_append] at htext
    rw [htext]
    rcases hback with rfl | ⟨hlast, hback⟩
    · exact .quoted hquote hinside
    · rw [hlast, all_nil]
      exact .unquoted hquote hinside hback

/-- No character of plain code opens anything. -/
theorem Plain.opening?_eq_none {front back rest : List Char} {c : Char}
    (h : Plain (front ++ c :: back) rest) : opening? (c :: (back ++ rest)) = none := by
  induction front with
  | nil => exact h.1
  | cons d front ih => exact ih h.2

theorem formed_of_plain {text rest : List Char} (h : Plain text rest) :
    Formed ⟨.code, text⟩ after := by
  refine .code (fun c hc => ?_) ?_ ?_
  · obtain ⟨front, back, rfl⟩ := List.append_of_mem hc
    exact (opening?_eq_none_iff.mp h.opening?_eq_none).1
  · rintro ⟨front, back, rfl⟩
    rw [List.append_assoc] at h
    cases (opening?_line (back ++ rest)).symm.trans h.opening?_eq_none
  · rintro ⟨front, back, rfl⟩
    rw [List.append_assoc] at h
    cases (opening?_block (back ++ rest)).symm.trans h.opening?_eq_none

/-- The first section has one of the forms, and no code follows it if it is code. -/
theorem first_of_all (h : all cs = s :: after) :
    Formed s after ∧ ∀ t ∈ after.head?, ¬(s.kind = .code ∧ t.kind = .code) := by
  by_cases hs : s.kind = .code
  · obtain ⟨kind, text⟩ := s
    cases hs
    obtain ⟨more, -, hplain, -, -, hnext⟩ := plain_of_all h
    exact ⟨formed_of_plain hplain, fun t ht hcode => hnext t ht hcode.2⟩
  · obtain ⟨more, hopen, rfl⟩ := opening?_of_all h hs
    exact ⟨formed_of_opening hopen, fun t _ hcode => hs hcode.1⟩

theorem apart_of_all {sections : List Section} (h : all cs = sections) :
    sections.IsChain fun s t => ¬(s.kind = .code ∧ t.kind = .code) := by
  induction sections generalizing cs with
  | nil => exact .nil
  | cons s after ih =>
    have hsections : all cs = [s] ++ after := h
    have hafter : all (join after) = after := all_join_of_append hsections
    exact List.isChain_cons.mpr ⟨(first_of_all h).2, ih hafter⟩

theorem Formed.text_ne_nil (h : Formed s after) (hs : s.kind ≠ .code) : s.text ≠ [] := by
  cases h with
  | code => exact absurd rfl hs
  | quoted | unquoted | line | block | unblocked => exact List.cons_ne_nil _ _

/-- **The sections of a statement are its parts, each of one of the forms.** -/
theorem parted_all (cs : List Char) : Parted cs (all cs) := by
  have hformed {before after : List Section} {s : Section} (h : all cs = before ++ s :: after) :
      Formed s after := (first_of_all (all_join_of_append h)).1
  refine ⟨join_all cs, fun s hs => ?_, apart_of_all rfl, fun before s after => hformed⟩
  by_cases hcode : s.kind = .code
  · exact text_ne_nil_of_mem_merge (merge_all cs ▸ hs) hcode
  · obtain ⟨before, after, hsections⟩ := List.append_of_mem hs
    exact (hformed hsections).text_ne_nil hcode

end SchemaMigration.ClickHouse.Section
