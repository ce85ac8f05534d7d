import SchemaMigration.ClickHouse.Binding
import SchemaMigration.Proofs.StatementSections
/-! # The sections of literals

The literal of a value has sections of its own, whatever stands behind it in a statement
(`literal_standsAlone`).  A quoted text is one quoted section, because its backslashes keep the
apostrophes of the text from closing it (`all_quote_append`), and without these backslashes it is
the text again (`unescape_escape`).  Numbers are code. -/
namespace SchemaMigration.ClickHouse

open Section

/-! ### Quoted texts -/

/-- A text without the backslashes that go before backslashes and apostrophes. -/
def unescape : List Char → List Char
  | '\\' :: c :: cs =>
    if c.toNat = 0x5C ∨ c.toNat = 0x27 then c :: unescape cs else '\\' :: unescape (c :: cs)
  | c :: cs => c :: unescape cs
  | [] => []

theorem escapeChar_of_special {c : Char} (h : c.toNat = 0x5C ∨ c.toNat = 0x27) :
    escapeChar c = ['\\', c] := if_pos h

theorem escapeChar_of_plain {c : Char} (h : ¬ (c.toNat = 0x5C ∨ c.toNat = 0x27)) :
    escapeChar c = [c] := if_neg h

theorem ne_backslash_of_plain {c : Char} (h : ¬ (c.toNat = 0x5C ∨ c.toNat = 0x27)) : c ≠ '\\' := by
  rintro rfl
  exact h (.inl rfl)

theorem unescape_escape (cs : List Char) : unescape (cs.flatMap escapeChar) = cs := by
  induction cs with
  | nil => rfl
  | cons c cs ih =>
    rw [List.flatMap_cons]
    by_cases h : c.toNat = 0x5C ∨ c.toNat = 0x27
    · rw [escapeChar_of_special h, List.cons_append, List.cons_append, unescape, if_pos h]
      exact congrArg (c :: ·) ih
    · rw [escapeChar_of_plain h, List.cons_append, unescape]
      · exact congrArg (c :: ·) ih
      · exact fun _ _ hc => absurd hc (ne_backslash_of_plain h)

/-- The apostrophe. -/
def mark : Char := Char.ofNat 0x27

theorem quote_eq (cs : List Char) : quote cs = mark :: (cs.flatMap escapeChar ++ [mark]) := rfl

/-- An escaped text is passed up to the apostrophe that closes it. -/
theorem takeQuoted_escape (cs seen rest : List Char) :
    takeQuoted mark seen (cs.flatMap escapeChar ++ mark :: rest) =
      (seen.reverse ++ cs.flatMap escapeChar ++ [mark], rest) := by
  induction cs generalizing seen with
  | nil =>
    rw [List.flatMap_nil, List.nil_append, takeQuoted, if_pos rfl, List.reverse_cons,
      List.append_nil]
    exact fun _ _ h => absurd h (by decide)
  | cons c cs ih =>
    rw [List.flatMap_cons]
    by_cases h : c.toNat = 0x5C ∨ c.toNat = 0x27
    -- a backslash takes the next character along, whichever it is
    · rw [escapeChar_of_special h, List.append_assoc]
      show takeQuoted mark seen ('\\' :: c :: (cs.flatMap escapeChar ++ mark :: rest)) = _
      rw [takeQuoted, ih]
      simp
    · have hmark : c ≠ mark := by
        rintro rfl
        exact h (.inr rfl)
      rw [escapeChar_of_plain h, List.append_assoc, List.singleton_append, takeQuoted,
        if_neg hmark, ih]
      · simp
      · exact fun _ _ hc => absurd hc (ne_backslash_of_plain h)

/-- A quoted text is one section, and what follows it has its own. -/
theorem all_quote_append (cs rest : List Char) :
    all (quote cs ++ rest) = ⟨.quoted, quote cs⟩ :: all rest := by
  have hopen : opening? (quote cs ++ rest) = some (⟨.quoted, quote cs⟩, rest) := by
    have htake := takeQuoted_escape cs [] rest
    show opening? (mark :: (cs.flatMap escapeChar ++ [mark] ++ rest)) = _
    rw [List.append_assoc, List.singleton_append, opening?_quoted rfl, htake, quote_eq]
    rfl
  exact all_of_opening hopen

theorem all_quote (cs : List Char) : all (quote cs) = [⟨.quoted, quote cs⟩] := by
  have := all_quote_append cs []
  rwa [List.append_nil, all_nil] at this

theorem standsAlone_quote (cs : List Char) : StandsAlone (quote cs) := by
  intro rest
  rw [all_quote_append, all_quote, List.singleton_append, merge_cons, merge_all,
    put_of_ne (by exact nofun)]

/-! ### Numbers -/

theorem isInert_of_isDigit {c : Char} (h : c.isDigit) : isInert c := by
  have hc : 48 ≤ c.toNat ∧ c.toNat ≤ 57 := Char.isDigit_iff_toNat.mp h
  refine isInert_iff.mpr ⟨?_, ?_, ?_⟩
  · simp only [isQuote, Bool.or_eq_false_iff, beq_eq_false_iff_ne]
    omega
  · rintro rfl
    exact absurd hc.1 (by decide)
  · rintro rfl
    exact absurd hc.1 (by decide)

/-- How numbers are written: characters that open nothing and end no opening, behind a minus or
none. -/
def IsNumeral (text : List Char) : Prop :=
  ∃ (negative : Bool) (body : List Char), body ≠ [] ∧ (∀ c ∈ body, isInert c ∧ c ≠ '*') ∧
    text = if negative then '-' :: body else body

namespace IsNumeral

theorem of_digits {body : List Char} (negative : Bool) (hne : body ≠ [])
    (h : ∀ c ∈ body, c.isDigit ∨ c = '.') :
    IsNumeral (if negative then '-' :: body else body) := by
  refine ⟨negative, body, hne, fun c hc => ?_, rfl⟩
  rcases h c hc with hdigit | rfl
  · refine ⟨isInert_of_isDigit hdigit, ?_⟩
    rintro rfl
    cases hdigit
  · decide

/-- A number is code, for its minus stands in front of something that is no minus. -/
theorem staysCode {text : List Char} (h : IsNumeral text) : StaysCode text := by
  obtain ⟨negative, body, hne, hbody, rfl⟩ := h
  have hcode : StaysCode body := .of_isInert fun c hc => (hbody c hc).1
  cases negative with
  | false => exact hcode
  | true =>
    obtain ⟨d, ds, rfl⟩ := List.exists_cons_of_ne_nil hne
    exact .minus_cons (hbody d List.mem_cons_self).1 hcode

theorem head {text : List Char} (h : IsNumeral text) : ∃ c rest, text = c :: rest ∧ c ≠ '*' := by
  obtain ⟨negative, body, hne, hbody, rfl⟩ := h
  cases negative with
  | false =>
    obtain ⟨d, ds, rfl⟩ := List.exists_cons_of_ne_nil hne
    exact ⟨d, ds, rfl, (hbody d List.mem_cons_self).2⟩
  | true => exact ⟨'-', body, rfl, by decide⟩

theorem int (n : Int) : IsNumeral (toString n).toList := by
  have hdigits : ∀ c ∈ Nat.toDigits 10 n.natAbs, c.isDigit ∨ c = '.' := fun c hc =>
    .inl (Nat.isDigit_of_mem_toDigits (by decide) (by decide) hc)
  have hnumeral := fun negative => of_digits negative Nat.toDigits_ne_nil hdigits
  rw [Int.toString_eq_repr, Int.repr_eq_if]
  by_cases hn : 0 ≤ n
  · rw [if_pos hn, Nat.toList_repr, show n.toNat = n.natAbs by omega]
    exact hnumeral false
  · rw [if_neg hn, String.toList_append, Nat.toList_repr, show (-n).toNat = n.natAbs by omega]
    exact hnumeral true

theorem nat (n : Nat) : IsNumeral (toString n).toList := int n

open Number

theorem isDigit_of_mem_digits {n : Nat} {place : Int} {c : Char}
    (h : c ∈ (Digits.of n place).digits) : c.isDigit := by
  have hmem : c ∈ Nat.toDigits 10 n :=
    List.mem_reverse.mp ((List.dropWhile_sublist _).mem (List.mem_reverse.mp h))
  exact Nat.isDigit_of_mem_toDigits (by decide) (by decide) hmem

theorem isDigit_of_mem_search {i : Interval} {tie : Tie} {fuel : Nat} {place : Int} {c : Char}
    (h : c ∈ (i.search tie fuel place).digits) : c.isDigit := by
  induction fuel generalizing place with
  | zero => exact isDigit_of_mem_digits h
  | succ fuel ih =>
    rw [Interval.search] at h
    split at h
    · exact isDigit_of_mem_digits h
    · exact ih h

/-- Positional notation adds zeros and a point to digits. -/
theorem mem_positional {d : Digits} {c : Char} (h : c ∈ d.positional) :
    c ∈ d.digits ∨ c = '0' ∨ c = '.' := by
  unfold Digits.positional at h
  cases hpoint : d.point with
  | ofNat p =>
    simp only [hpoint] at h
    rcases List.mem_append.mp h with h | h
    · split at h
      · exact .inr (.inl (List.mem_singleton.mp h))
      · rcases List.mem_append.mp h with h | h
        · exact .inl (List.mem_of_mem_take h)
        · exact .inr (.inl (List.mem_replicate.mp h).2)
    · split at h
      · cases h
      · rcases List.mem_cons.mp h with h | h
        · exact .inr (.inr h)
        · exact .inl (List.mem_of_mem_drop h)
  | negSucc p =>
    simp only [hpoint] at h
    rcases List.mem_append.mp h with h | h
    · rcases List.mem_cons.mp h with h | h
      · exact .inr (.inl h)
      rcases List.mem_cons.mp h with h | h
      · exact .inr (.inr h)
      · exact .inr (.inl (List.mem_replicate.mp h).2)
    · exact .inl h

theorem positional_ne_nil (d : Digits) : d.positional ≠ [] := by
  unfold Digits.positional
  split
  · intro hnil
    have hwhole := (List.append_eq_nil_iff.mp hnil).1
    split at hwhole
    · cases hwhole
    · rename_i hne
      rw [hwhole] at hne
      exact hne rfl
  · exact nofun

theorem float (x : Double) : IsNumeral x.display.toList := by
  rw [Double.display]
  cases x.parts with
  | nan => exact ⟨false, ['N', 'a', 'N'], List.cons_ne_nil _ _, by simp [isInert, isQuote], rfl⟩
  | infinite negative =>
    refine ⟨negative, ['i', 'n', 'f'], List.cons_ne_nil _ _, by simp [isInert, isQuote], ?_⟩
    cases negative <;> rfl
  | finite negative significand exponent =>
    rw [Parts.display, String.toList_ofList]
    by_cases hzero : significand = 0
    · rw [if_pos hzero]
      exact of_digits negative (List.cons_ne_nil _ _) (by simp)
    · rw [if_neg hzero]
      refine of_digits negative (positional_ne_nil _) fun c hc => ?_
      rcases mem_positional hc with hc | rfl | rfl
      · exact .inl (isDigit_of_mem_search hc)
      · exact .inl rfl
      · exact .inr rfl

end IsNumeral

/-! ### Literals -/

theorem standsAlone_of_all {cs : List Char} (h : cs.all isInert) : StandsAlone cs :=
  StaysCode.standsAlone (.of_isInert (List.all_eq_true.mp h))

/-- Literals with the mark between them. -/
theorem standsAlone_intercalate {sep : List Char} (hsep : StandsAlone sep)
    {texts : List (List Char)} (h : ∀ text ∈ texts, StandsAlone text) :
    StandsAlone (sep.intercalate texts) := by
  induction texts with
  | nil => exact StaysCode.standsAlone .nil
  | cons text texts ih =>
    have htext : StandsAlone text := h text List.mem_cons_self
    have hrest := ih fun text' htext' => h text' (List.mem_cons_of_mem _ htext')
    cases texts with
    | nil =>
      rw [List.intercalate_singleton]
      exact htext
    | cons text' texts =>
      rw [List.intercalate_cons_cons]
      exact (htext.append hsep).append hrest

mutual

/-- The literal of a value has sections of its own, whatever follows it. -/
theorem literal_standsAlone : ∀ v : Value, StandsAlone (literal v)
  | .null => standsAlone_of_all (by decide)
  | .bool b => standsAlone_of_all (by cases b <;> decide)
  | .int n => (IsNumeral.int n.toInt).staysCode.standsAlone
  | .uint n => (IsNumeral.nat n.toNat).staysCode.standsAlone
  | .float x => (IsNumeral.float x).staysCode.standsAlone
  | .text s => standsAlone_quote s.toList
  | .bytes bs => standsAlone_quote _
  | .time t => standsAlone_quote _
  | .tuple vs => by
    have hopen : StandsAlone ['['] := standsAlone_of_all (by decide)
    have hclose : StandsAlone [']'] := standsAlone_of_all (by decide)
    have hsep : StandsAlone [',', ' '] := standsAlone_of_all (by decide)
    exact (hopen.append (standsAlone_intercalate hsep (literals_standAlone vs))).append hclose

theorem literals_standAlone : ∀ vs : List Value, ∀ text ∈ literals vs, StandsAlone text
  | [], text, h => nomatch h
  | v :: vs, text, h => by
    rcases List.mem_cons.mp h with rfl | h
    · exact literal_standsAlone v
    · exact literals_standAlone vs text h

end

/-- A literal is not empty, and with a slash in front of it it makes no comment. -/
theorem literal_head (v : Value) : ∃ c rest, literal v = c :: rest ∧ c ≠ '*' := by
  cases v with
  | null => exact ⟨'N', _, rfl, by decide⟩
  | bool b => cases b <;> exact ⟨_, _, rfl, by decide⟩
  | int n => exact (IsNumeral.int n.toInt).head
  | uint n => exact (IsNumeral.nat n.toNat).head
  | float x => exact (IsNumeral.float x).head
  | text s => exact ⟨mark, _, rfl, by decide⟩
  | bytes bs => exact ⟨mark, _, rfl, by decide⟩
  | time t => exact ⟨mark, _, rfl, by decide⟩
  | tuple vs => exact ⟨'[', _, rfl, by decide⟩

theorem mem_literals {l : List Char} {vs : List Value} (h : l ∈ literals vs) :
    ∃ v ∈ vs, l = literal v := by
  induction vs with
  | nil => cases h
  | cons v vs ih =>
    rcases List.mem_cons.mp h with rfl | h
    · exact ⟨v, List.mem_cons_self, rfl⟩
    · obtain ⟨w, hw, hl⟩ := ih h
      exact ⟨w, List.mem_cons_of_mem _ hw, hl⟩

/-! ### Arguments -/

/-- A statement takes as many arguments as it has placeholders. -/
theorem bind_of_count {text : String} {args : List Value} (hargs : args ≠ [])
    (hcount : placeholders (all text.toList) = args.length) :
    bind text args = .ok (String.ofList (fill (literals args) (all text.toList))) := by
  unfold bind
  rw [if_neg (by simpa using hargs)]
  show (if _ then _ else if _ then _ else _) = _
  rw [hcount, if_neg (Nat.lt_irrefl _), if_neg (Nat.lt_irrefl _)]

end SchemaMigration.ClickHouse
