import SchemaMigration.Json.Document
import SchemaMigration.Proofs.IntegerReading
/-! # Documents as they are written

A document has blanks between its parts or none, a numeral has a fraction and an exponent or not,
and a character of a string stands there as it is or behind a backslash (`Form.Written`).  A reader
that takes one part after the other finds the form that was written (`Form.read?_of_written`).  It
takes as much of a numeral as it can; so a part must not be followed by what goes on with a numeral
(`Form.Ends`), and in a document it never is.

The digits of an integer are a numeral, and the only one that is written so (`Numeral.eq_ofInt`).
If 64 bits hold the integer, it is the value of the numeral. -/
namespace SchemaMigration.Json

open Number

/-! ### Strings -/

/-- The quotation mark. -/
def quotes : Char := Char.ofNat 0x22

namespace Piece

/-- Whether a character stands in a string as it is. -/
def isPlain (c : Char) : Bool := 32 ≤ c.toNat && c.toNat ≠ 0x22 && c.toNat ≠ 0x5C

/-- A character of a string, as it is or escaped. -/
inductive Written : Piece → List Char → Prop
  | plain {c : Char} (h : isPlain c = true) : Written (.char c) [c]
  | letter {c e : Char} (h : Form.escaped? c = some e) : Written (.char e) ['\\', c]
  | code {a b c d : Char} {n : Nat} (h : Form.hexCode? a b c d = some n) :
      Written (.code n) ['\\', 'u', a, b, c, d]

/-- The characters of a string, one behind the other. -/
inductive WrittenAll : List Piece → List Char → Prop
  | nil : WrittenAll [] []
  | cons {p : Piece} {ps : List Piece} {cs rest : List Char} (h : Written p cs)
      (hs : WrittenAll ps rest) : WrittenAll (p :: ps) (cs ++ rest)

/-- A string, with its quotation marks. -/
def Quoted (ps : List Piece) (cs : List Char) : Prop :=
  ∃ inner, WrittenAll ps inner ∧ cs = quotes :: inner ++ [quotes]

/-- What is written of a character is taken, whatever follows. -/
theorem Written.takeString {p : Piece} {cs : List Char} (h : Written p cs) (seen : List Piece)
    (rest : List Char) : Form.takeString seen (cs ++ rest) = Form.takeString (p :: seen) rest := by
  cases h with
  | @plain c h =>
    simp only [isPlain, Bool.and_eq_true, decide_eq_true_eq] at h
    obtain ⟨⟨hprintable, hquotes⟩, hbackslash⟩ := h
    have hc : ¬(c.toNat < 32 ∨ c.toNat = 0x5C) := by omega
    rw [List.singleton_append, Form.takeString.eq_def]
    split
    · contradiction
    · rename_i heq
      cases heq
      exact absurd rfl hbackslash
    · rename_i heq
      cases heq
      exact absurd rfl hbackslash
    · rename_i heq
      cases heq
      rw [if_neg hquotes, if_neg hc]
  | @letter c e h =>
    -- four digits would be taken behind a `u`
    have hc : c ≠ 'u' := by
      rintro rfl
      have hnone : Form.escaped? 'u' = none := by decide
      rw [hnone] at h
      cases h
    rw [List.cons_append, List.singleton_append, Form.takeString.eq_def]
    split
    · contradiction
    · rename_i heq
      cases heq
      exact absurd rfl hc
    · rename_i heq
      cases heq
      rw [h]
    · rename_i hletter heq
      cases heq
      exact absurd rfl (hletter _ _ rfl)
  | code h =>
    simp only [List.cons_append, List.nil_append, Form.takeString, h]

theorem WrittenAll.takeString {ps : List Piece} {cs : List Char} (h : WrittenAll ps cs)
    (seen : List Piece) (rest : List Char) :
    Form.takeString seen (cs ++ quotes :: rest) = some (seen.reverse ++ ps, rest) := by
  induction h generalizing seen with
  | nil =>
    rw [List.nil_append, List.append_nil]
    rfl
  | @cons p ps cs _ h _ ih =>
    rw [List.append_assoc, h.takeString, ih, List.reverse_cons, List.append_assoc,
      List.singleton_append]

end Piece

/-! ### Numerals -/

namespace Numeral

/-- The sign of a numeral. -/
def sign (negative : Bool) : List Char := if negative then ['-'] else []

/-- The digits in front of the point: no zero stands before others. -/
def IsWhole (whole : List Char) : Prop :=
  IsNumeral whole ∧ (whole.head? = some '0' → whole.length = 1)

/-- The digits behind a point, if there is one. -/
inductive Fraction : List Char → List Char → Prop
  | none : Fraction [] []
  | digits {digits : List Char} (h : IsNumeral digits) : Fraction digits ('.' :: digits)

/-- The digits behind the letter of an exponent, with a sign or none. -/
inductive Power : Bool → List Char → List Char → Prop
  | plain {digits : List Char} (h : IsNumeral digits) : Power false digits digits
  | plus {digits : List Char} (h : IsNumeral digits) : Power false digits ('+' :: digits)
  | minus {digits : List Char} (h : IsNumeral digits) : Power true digits ('-' :: digits)

/-- A numeral as it is written. -/
inductive Written : Numeral → List Char → Prop
  | plain (negative : Bool) {whole fraction fs : List Char} (hwhole : IsWhole whole)
      (hfraction : Fraction fraction fs) :
      Written ⟨negative, whole, fraction, !fraction.isEmpty, false, []⟩
        (sign negative ++ (whole ++ fs))
  | scaled (negative : Bool) {whole fraction fs power es : List Char} {powerNegative : Bool}
      {c : Char} (hwhole : IsWhole whole) (hfraction : Fraction fraction fs)
      (hc : c = 'e' ∨ c = 'E') (hpower : Power powerNegative power es) :
      Written ⟨negative, whole, fraction, true, powerNegative, power⟩
        (sign negative ++ (whole ++ (fs ++ c :: es)))

/-- A numeral begins with a digit or a minus sign. -/
theorem Written.first {n : Numeral} {cs : List Char} (h : n.Written cs) :
    ∃ c rest, cs = c :: rest ∧ (isDigit c = true ∨ c = '-') := by
  have hparts {negative : Bool} {whole : List Char} (hwhole : IsWhole whole) (back : List Char) :
      ∃ c rest, sign negative ++ (whole ++ back) = c :: rest ∧ (isDigit c = true ∨ c = '-') := by
    obtain ⟨c, rest, rfl⟩ := List.exists_cons_of_ne_nil hwhole.1.1
    cases negative with
    | true => exact ⟨'-', _, rfl, .inr rfl⟩
    | false => exact ⟨c, _, rfl, .inl (hwhole.1.2 c List.mem_cons_self)⟩
  cases h with
  | plain _ hwhole => exact hparts hwhole _
  | scaled _ hwhole => exact hparts hwhole _

theorem first_ne {c d : Char} (hc : isDigit c = true ∨ c = '-') (hd : isDigit d = false)
    (hminus : d ≠ '-') : c ≠ d := by
  rintro rfl
  rcases hc with hc | hc
  · rw [hd] at hc
    cases hc
  · exact hminus hc

end Numeral

namespace Form

/-- A text that goes on with no numeral. -/
def Ends (rest : List Char) : Prop :=
  ∀ c ∈ rest.head?, isDigit c = false ∧ c ≠ '.' ∧ c ≠ 'e' ∧ c ≠ 'E'

theorem takeDigits_append {digits rest : List Char} (h : IsNumeral digits)
    (hrest : ∀ c ∈ rest.head?, isDigit c = false) :
    takeDigits (digits ++ rest) = (digits, rest) := by
  obtain ⟨htake, hdrop⟩ := Text.span_append h.2 hrest
  rw [takeDigits, htake, hdrop]

theorem takeFraction_append {fraction fs rest : List Char} (h : Numeral.Fraction fraction fs)
    (hrest : ∀ c ∈ rest.head?, isDigit c = false ∧ c ≠ '.') :
    takeFraction (fs ++ rest) = some (fraction, rest) := by
  cases h with
  | none =>
    rw [List.nil_append, takeFraction.eq_def]
    split
    · exact absurd rfl (hrest _ rfl).2
    · rfl
  | digits h =>
    rw [List.cons_append, takeFraction, takeDigits_append h fun c hc => (hrest c hc).1]
    simp only [List.isEmpty_eq_false_iff.mpr h.1, Bool.false_eq_true, ↓reduceIte]

theorem takeExponent_append {negative : Bool} {power es rest : List Char}
    (h : Numeral.Power negative power es) (hrest : ∀ c ∈ rest.head?, isDigit c = false) :
    takeExponent (es ++ rest) = some (negative, power, rest) := by
  have hdigits {digits : List Char} (h : IsNumeral digits) :
      takeDigits (digits ++ rest) = (digits, rest) := takeDigits_append h hrest
  have hempty {digits : List Char} (h : IsNumeral digits) : digits.isEmpty = false :=
    List.isEmpty_eq_false_iff.mpr h.1
  cases h with
  | plain h =>
    obtain ⟨c, cs, rfl⟩ := List.exists_cons_of_ne_nil h.1
    have hsign := h.head_ne
    rw [takeExponent.eq_def]
    split
    · rename_i hmatch
      split at hmatch
      · rename_i heq
        cases heq
        exact absurd rfl hsign.1
      · rename_i heq
        cases heq
        exact absurd rfl hsign.2
      · cases hmatch
        simp only [hdigits h, hempty h, Bool.false_eq_true, ↓reduceIte]
  | plus h => simp only [List.cons_append, takeExponent, hdigits h, hempty h, Bool.false_eq_true,
      ↓reduceIte]
  | minus h => simp only [List.cons_append, takeExponent, hdigits h, hempty h, Bool.false_eq_true,
      ↓reduceIte]

/-- What is left to take of a numeral behind its fraction. -/
def takeBehind (negative : Bool) (whole fraction : List Char) :
    List Char → Option (Numeral × List Char)
  | c :: r =>
    if c = 'e' ∨ c = 'E' then do
      let (powerNegative, power, rest) ← takeExponent r
      return (⟨negative, whole, fraction, true, powerNegative, power⟩, rest)
    else some (⟨negative, whole, fraction, !fraction.isEmpty, false, []⟩, c :: r)
  | [] => some (⟨negative, whole, fraction, !fraction.isEmpty, false, []⟩, [])

theorem takeNumeral_append {negative : Bool} {whole fraction fs rest : List Char}
    (hwhole : Numeral.IsWhole whole) (hfraction : Numeral.Fraction fraction fs)
    (hrest : ∀ c ∈ rest.head?, isDigit c = false ∧ c ≠ '.') :
    takeNumeral (Numeral.sign negative ++ (whole ++ (fs ++ rest))) =
      takeBehind negative whole fraction rest := by
  obtain ⟨hnumeral, hzero⟩ := hwhole
  have hrest' : ∀ c ∈ (fs ++ rest).head?, isDigit c = false := by
    intro c hc
    cases hfraction with
    | none => exact (hrest c hc).1
    | digits h =>
      rw [List.cons_append, List.head?_cons, Option.mem_some_iff] at hc
      subst hc
      decide
  have hdigits := takeDigits_append hnumeral hrest'
  have hplain : ¬(whole.isEmpty = true ∨ whole.head? = some '0' ∧ whole.length ≠ 1) := by
    rw [List.isEmpty_eq_false_iff.mpr hnumeral.1]
    rintro (h | ⟨h, hne⟩)
    · cases h
    · exact hne (hzero h)
  cases negative with
  | true =>
    rw [Numeral.sign, if_pos rfl, List.singleton_append, takeNumeral]
    simp only [hdigits, if_neg hplain, takeFraction_append hfraction hrest, Option.bind_eq_bind,
      Option.bind_some]
    cases rest <;> rfl
  | false =>
    rw [Numeral.sign, if_neg Bool.false_ne_true, List.nil_append, takeNumeral]
    · simp only [hdigits, if_neg hplain, takeFraction_append hfraction hrest, Option.bind_eq_bind,
        Option.bind_some]
      cases rest <;> rfl
    · intro r hr
      obtain ⟨c, cs, rfl⟩ := List.exists_cons_of_ne_nil hnumeral.1
      exact hnumeral.head_ne.2 (List.cons.inj hr).1

/-- A numeral is taken as a whole, and no more than it. -/
theorem takeNumeral_written {n : Numeral} {cs : List Char} (h : n.Written cs) {rest : List Char}
    (hrest : Ends rest) : takeNumeral (cs ++ rest) = some (n, rest) := by
  cases h with
  | plain negative hwhole hfraction =>
    rw [List.append_assoc, List.append_assoc, takeNumeral_append hwhole hfraction fun c hc =>
      ⟨(hrest c hc).1, (hrest c hc).2.1⟩]
    cases rest with
    | nil => rfl
    | cons c rest =>
      have hc : ¬(c = 'e' ∨ c = 'E') := not_or.mpr (hrest c rfl).2.2
      rw [takeBehind, if_neg hc]
  | @scaled negative _ _ _ _ es _ c hwhole hfraction hc hpower =>
    have hletter : ∀ d ∈ (c :: es ++ rest).head?, isDigit d = false ∧ d ≠ '.' := by
      intro d hd
      rw [List.cons_append, List.head?_cons, Option.mem_some_iff] at hd
      subst hd
      rcases hc with rfl | rfl <;> decide
    rw [List.append_assoc, List.append_assoc, List.append_assoc,
      takeNumeral_append hwhole hfraction hletter, List.cons_append, takeBehind, if_pos hc,
      takeExponent_append hpower fun d hd => (hrest d hd).1]
    rfl

/-! ### Forms -/

/-- A text of blanks. -/
def IsGap (cs : List Char) : Prop := ∀ c ∈ cs, isGap c = true

theorem IsGap.append {front back : List Char} (hfront : IsGap front) (hback : IsGap back) :
    IsGap (front ++ back) := fun c hc => (List.mem_append.mp hc).elim (hfront c) (hback c)

/-- The brackets around the fields of an object. -/
def opened : Char := Char.ofNat 0x7B
def closed : Char := Char.ofNat 0x7D

mutual

/-- A form as it is written, with blanks around it or none. -/
inductive Written : Form → List Char → Prop
  | null : Written .null "null".toList
  | bool (b : Bool) : Written (.bool b) (if b then "true" else "false").toList
  | number {n : Numeral} {cs : List Char} (h : n.Written cs) : Written (.number n) cs
  | string {ps : List Piece} {cs : List Char} (h : Piece.Quoted ps cs) : Written (.string ps) cs
  | noItems {gap : List Char} (h : IsGap gap) : Written (.array []) ('[' :: gap ++ [']'])
  | array {items : List Form} {cs : List Char} (h : WrittenItems items cs) :
      Written (.array items) ('[' :: cs ++ [']'])
  | noFields {gap : List Char} (h : IsGap gap) :
      Written (.object []) (opened :: gap ++ [closed])
  | object {fields : List (List Piece × Form)} {cs : List Char} (h : WrittenFields fields cs) :
      Written (.object fields) (opened :: cs ++ [closed])
  | gaps {form : Form} {front cs back : List Char} (hfront : IsGap front) (h : Written form cs)
      (hback : IsGap back) : Written form (front ++ cs ++ back)

/-- The items of an array, with commas between them. -/
inductive WrittenItems : List Form → List Char → Prop
  | last {item : Form} {cs : List Char} (h : Written item cs) : WrittenItems [item] cs
  | cons {item : Form} {items : List Form} {cs rest : List Char} (h : Written item cs)
      (hs : WrittenItems items rest) : WrittenItems (item :: items) (cs ++ ',' :: rest)

/-- The fields of an object, with commas between them. -/
inductive WrittenFields : List (List Piece × Form) → List Char → Prop
  | last {key : List Piece} {form : Form} {ks cs : List Char} (hkey : Written (.string key) ks)
      (h : Written form cs) : WrittenFields [(key, form)] (ks ++ ':' :: cs)
  | cons {key : List Piece} {form : Form} {fields : List (List Piece × Form)}
      {ks cs rest : List Char} (hkey : Written (.string key) ks) (h : Written form cs)
      (hs : WrittenFields fields rest) :
      WrittenFields ((key, form) :: fields) (ks ++ ':' :: (cs ++ ',' :: rest))

end

/-! ### Reading what is written -/

theorem skip_append {gap : List Char} (h : IsGap gap) (rest : List Char) :
    skip (gap ++ rest) = skip rest := List.dropWhile_append_of_pos h

theorem skip_cons {c : Char} (h : isGap c = false) (rest : List Char) :
    skip (c :: rest) = c :: rest :=
  List.dropWhile_cons_of_neg (Bool.eq_false_iff.mp h)

/-- What stands behind blanks is taken. -/
theorem skip_gap_cons {gap : List Char} {c : Char} (h : IsGap gap) (hc : isGap c = false)
    (rest : List Char) : skip (gap ++ c :: rest) = c :: rest := by
  rw [skip_append h, skip_cons hc]

theorem take_append {gap : List Char} (h : IsGap gap) (fuel : Nat) (rest : List Char) :
    take fuel (gap ++ rest) = take fuel rest := by
  cases fuel with
  | zero => rfl
  | succ fuel => rw [take, take, skip_append h]

theorem isGap_first {c : Char} (hc : isDigit c = true ∨ c = '-') : isGap c = false := by
  simp only [isGap, Bool.or_eq_false_iff, beq_eq_false_iff_ne]
  refine ⟨⟨⟨?_, ?_⟩, ?_⟩, ?_⟩ <;> exact Numeral.first_ne hc (by decide) (by decide)

theorem takeMark_gap {gap : List Char} {c : Char} (h : IsGap gap) (hc : isGap c = false)
    (rest : List Char) : takeMark c (gap ++ c :: rest) = some rest := by
  rw [takeMark, skip_gap_cons h hc]
  exact if_pos rfl

theorem Ends.gap {gap rest : List Char} (h : IsGap gap) (hrest : Ends rest) :
    Ends (gap ++ rest) := by
  cases gap with
  | nil => exact hrest
  | cons c gap =>
    intro d hd
    rw [List.cons_append, List.head?_cons, Option.mem_some_iff] at hd
    subst hd
    have hc := h c List.mem_cons_self
    simp only [isGap, Bool.or_eq_true, beq_iff_eq] at hc
    rcases hc with ((rfl | rfl) | rfl) | rfl <;> decide

/-- The sign behind a part ends it. -/
theorem Ends.sign {c : Char} {rest : List Char}
    (h : isDigit c = false ∧ c ≠ '.' ∧ c ≠ 'e' ∧ c ≠ 'E') : Ends (c :: rest) := by
  intro d hd
  rw [List.head?_cons, Option.mem_some_iff] at hd
  exact hd ▸ h

theorem take_null (fuel : Nat) (rest : List Char) :
    take (fuel + 1) ("null".toList ++ rest) = some (.null, rest) := by
  rw [take]
  rfl

theorem take_bool (fuel : Nat) (b : Bool) (rest : List Char) :
    take (fuel + 1) ((if b then "true" else "false").toList ++ rest) = some (.bool b, rest) := by
  rw [take]
  cases b <;> rfl

theorem take_string {ps : List Piece} {cs : List Char} (h : Piece.Quoted ps cs) (fuel : Nat)
    (rest : List Char) : take (fuel + 1) (cs ++ rest) = some (.string ps, rest) := by
  obtain ⟨inner, hinner, rfl⟩ := h
  have htake := hinner.takeString [] rest
  rw [List.cons_append, List.cons_append, List.append_assoc, List.singleton_append, take,
    skip_cons rfl]
  rw [List.reverse_nil, List.nil_append] at htake
  simp only [htake]
  rfl

theorem take_number {n : Numeral} {cs rest : List Char} (h : n.Written cs) (fuel : Nat)
    (hrest : Ends rest) : take (fuel + 1) (cs ++ rest) = some (.number n, rest) := by
  have htake := takeNumeral_written h hrest
  obtain ⟨c, cs, rfl, hc⟩ := h.first
  have hne {d : Char} : isDigit d = false → d ≠ '-' → c ≠ d := Numeral.first_ne hc
  have hquotes : c.toNat ≠ 0x22 := fun h =>
    (hne (by decide) (by decide) : c ≠ quotes) (Char.toNat_inj.mp h)
  have hopened : c.toNat ≠ 0x7B := fun h =>
    (hne (by decide) (by decide) : c ≠ opened) (Char.toNat_inj.mp h)
  have hother : c ≠ 'n' ∧ c ≠ 't' ∧ c ≠ 'f' ∧ c ≠ '[' := by
    refine ⟨?_, ?_, ?_, ?_⟩ <;> exact hne (by decide) (by decide)
  rw [List.cons_append, take, skip_cons (isGap_first hc)]
  simp only [hother, hquotes, hopened, ↓reduceIte]
  rw [← List.cons_append, htake]
  rfl

/-- No form begins with the bracket that ends an array. -/
theorem Written.first {form : Form} {cs : List Char} : Written form cs →
    ∃ front c rest, cs = front ++ c :: rest ∧ IsGap front ∧ isGap c = false ∧ c ≠ ']'
  | .null => ⟨[], 'n', _, rfl, nofun, by decide, by decide⟩
  | .bool b => by
    cases b
    · exact ⟨[], 'f', _, rfl, nofun, by decide, by decide⟩
    · exact ⟨[], 't', _, rfl, nofun, by decide, by decide⟩
  | .number h => by
    obtain ⟨c, rest, rfl, hc⟩ := h.first
    exact ⟨[], c, rest, rfl, nofun, isGap_first hc, Numeral.first_ne hc (by decide) (by decide)⟩
  | .string h => by
    obtain ⟨inner, -, rfl⟩ := h
    exact ⟨[], quotes, _, rfl, nofun, by decide, by decide⟩
  | .noItems _ | .array _ => ⟨[], '[', _, rfl, nofun, by decide, by decide⟩
  | .noFields _ | .object _ => ⟨[], opened, _, rfl, nofun, by decide, by decide⟩
  | @Written.gaps _ before _ after hfront h _ => by
    obtain ⟨front, c, rest, rfl, hgap, hc⟩ := first h
    refine ⟨before ++ front, c, rest ++ after, ?_, ?_, hc⟩
    · simp only [List.append_assoc, List.cons_append]
    · exact hfront.append hgap

/-- What is written is not blank. -/
theorem Written.exists_solid {form : Form} {cs : List Char} : Written form cs →
    ∃ c ∈ cs, Text.isBlank c = false
  | .null => ⟨'n', by decide, by decide⟩
  | .bool b => ⟨'e', by cases b <;> decide, by decide⟩
  | .number h => by
    obtain ⟨c, rest, rfl, hc⟩ := h.first
    refine ⟨c, List.mem_cons_self, ?_⟩
    rcases hc with hc | rfl
    · exact isBlank_of_isDigit hc
    · decide
  | .string h => by
    obtain ⟨inner, -, rfl⟩ := h
    exact ⟨quotes, List.mem_cons_self, by decide⟩
  | .noItems _ | .array _ => ⟨'[', List.mem_cons_self, by decide⟩
  | .noFields _ | .object _ => ⟨opened, List.mem_cons_self, by decide⟩
  | .gaps _ h _ => by
    obtain ⟨c, hc, hsolid⟩ := exists_solid h
    exact ⟨c, List.mem_append_left _ (List.mem_append_right _ hc), hsolid⟩

/-- A string has blanks around it or none. -/
theorem Written.string_parts {form : Form} {cs : List Char} {ps : List Piece} (h : Written form cs)
    (hform : form = .string ps) :
    ∃ front inner back, cs = front ++ quotes :: (inner ++ quotes :: back) ∧ IsGap front ∧
      IsGap back ∧ Piece.WrittenAll ps inner := by
  match h with
  | .string h =>
    cases hform
    obtain ⟨inner, hinner, rfl⟩ := h
    exact ⟨[], inner, [], rfl, nofun, nofun, hinner⟩
  | @Written.gaps _ before _ after hfront h hback =>
    obtain ⟨front, inner, back, rfl, hgap, hgap', hinner⟩ := Written.string_parts h hform
    refine ⟨before ++ front, inner, back ++ after, ?_, ?_, ?_, hinner⟩
    · simp only [List.append_assoc, List.cons_append]
    · exact hfront.append hgap
    · exact hgap'.append hback
  | .null | .bool _ | .number _ | .noItems _ | .array _ | .noFields _ | .object _ => cases hform

theorem takeKey_written {key : List Piece} {ks : List Char} (h : Written (.string key) ks)
    (rest : List Char) : ∃ gap, IsGap gap ∧ takeKey (ks ++ rest) = some (key, gap ++ rest) := by
  obtain ⟨front, inner, back, rfl, hfront, hback, hinner⟩ := h.string_parts rfl
  refine ⟨back, hback, ?_⟩
  have htake := hinner.takeString [] (back ++ rest)
  rw [List.append_assoc, List.cons_append, List.append_assoc, List.cons_append, takeKey,
    skip_gap_cons hfront (by decide)]
  exact (if_pos rfl).trans htake

/-- The bracket that ends an array or an object is not found where something else begins. -/
theorem takeMark_other {gap : List Char} {c d : Char} (h : IsGap gap) (hd : isGap d = false)
    (hne : d ≠ c) (rest : List Char) : takeMark c (gap ++ d :: rest) = none := by
  rw [takeMark, skip_gap_cons h hd]
  exact if_neg hne

theorem takeMark_items {items : List Form} {cs : List Char} (h : WrittenItems items cs)
    (rest : List Char) : takeMark ']' (cs ++ rest) = none := by
  have hitem {item : Form} {cs : List Char} (h : Written item cs) (rest : List Char) :
      takeMark ']' (cs ++ rest) = none := by
    obtain ⟨front, c, back, rfl, hfront, hc, hne⟩ := h.first
    rw [List.append_assoc]
    exact takeMark_other hfront hc hne _
  cases h with
  | last h => exact hitem h rest
  | cons h _ =>
    rw [List.append_assoc]
    exact hitem h _

theorem takeMark_fields {fields : List (List Piece × Form)} {cs : List Char}
    (h : WrittenFields fields cs) (rest : List Char) : takeMark closed (cs ++ rest) = none := by
  have hfield {key : List Piece} {ks : List Char} (h : Written (.string key) ks)
      (rest : List Char) : takeMark closed (ks ++ rest) = none := by
    obtain ⟨front, inner, back, rfl, hfront, -, -⟩ := h.string_parts rfl
    rw [List.append_assoc]
    exact takeMark_other hfront (by decide) (by decide) _
  cases h with
  | last hkey _ | cons hkey _ _ =>
    rw [List.append_assoc]
    exact hfield hkey _

theorem take_noItems {gap rest : List Char} (h : IsGap gap) (fuel : Nat) :
    take (fuel + 1) ('[' :: gap ++ [']'] ++ rest) = some (.array [], rest) := by
  rw [List.cons_append, List.cons_append, List.append_assoc, List.singleton_append, take,
    skip_cons rfl]
  simp only [takeMark_gap h (c := ']') rfl]
  rfl

theorem take_array {items : List Form} {cs rest : List Char} {fuel : Nat}
    (h : WrittenItems items cs)
    (htake : takeItems fuel [] (cs ++ ']' :: rest) = some (items, rest)) :
    take (fuel + 1) ('[' :: cs ++ [']'] ++ rest) = some (.array items, rest) := by
  rw [List.cons_append, List.cons_append, List.append_assoc, List.singleton_append, take,
    skip_cons rfl]
  simp only [takeMark_items h, htake]
  rfl

theorem take_noFields {gap rest : List Char} (h : IsGap gap) (fuel : Nat) :
    take (fuel + 1) (opened :: gap ++ [closed] ++ rest) = some (.object [], rest) := by
  have hmark : takeMark (Char.ofNat 0x7D) (gap ++ closed :: rest) = some rest :=
    takeMark_gap h (by decide) rest
  rw [List.cons_append, List.cons_append, List.append_assoc, List.singleton_append, take,
    skip_cons (by decide)]
  simp only [hmark]
  rfl

theorem take_object {fields : List (List Piece × Form)} {cs rest : List Char} {fuel : Nat}
    (h : WrittenFields fields cs)
    (htake : takeFields fuel [] (cs ++ closed :: rest) = some (fields, rest)) :
    take (fuel + 1) (opened :: cs ++ [closed] ++ rest) = some (.object fields, rest) := by
  have hmark : takeMark (Char.ofNat 0x7D) (cs ++ closed :: rest) = none := takeMark_fields h _
  rw [List.cons_append, List.cons_append, List.append_assoc, List.singleton_append, take,
    skip_cons (by decide)]
  simp only [hmark, htake]
  rfl

-- The induction is on how the form is written.  Each step takes a character, so the length of the
-- text is enough for all of them.
mutual

/-- A form is taken from in front of whatever ends it, but for the blanks behind it. -/
theorem Written.take {form : Form} {cs : List Char} {fuel : Nat} (h : Written form cs)
    (hfuel : cs.length ≤ fuel) (rest : List Char) (hrest : Ends rest) :
    ∃ gap, IsGap gap ∧ take fuel (cs ++ rest) = some (form, gap ++ rest) := by
  obtain ⟨fuel, rfl⟩ : ∃ n, fuel = n + 1 := by
    obtain ⟨front, c, back, rfl, -⟩ := h.first
    rw [List.length_append, List.length_cons] at hfuel
    exact ⟨fuel - 1, by omega⟩
  match h with
  | .null => exact ⟨[], nofun, take_null fuel rest⟩
  | .bool b => exact ⟨[], nofun, take_bool fuel b rest⟩
  | .number h => exact ⟨[], nofun, take_number h fuel hrest⟩
  | .string h => exact ⟨[], nofun, take_string h fuel rest⟩
  | .noItems h => exact ⟨[], nofun, take_noItems h fuel⟩
  | .array h =>
    refine ⟨[], nofun, take_array h ?_⟩
    rw [List.length_append, List.length_cons, List.length_singleton] at hfuel
    exact h.take [] (by omega)
  | .noFields h => exact ⟨[], nofun, take_noFields h fuel⟩
  | .object h =>
    refine ⟨[], nofun, take_object h ?_⟩
    rw [List.length_append, List.length_cons, List.length_singleton] at hfuel
    exact h.take [] (by omega)
  | @Written.gaps _ front cs back hfront h hback =>
    rw [List.length_append, List.length_append] at hfuel
    obtain ⟨gap, hgap, htake⟩ :=
      h.take (by omega : cs.length ≤ fuel + 1) (back ++ rest) (hrest.gap hback)
    refine ⟨gap ++ back, hgap.append hback, ?_⟩
    rw [List.append_assoc, List.append_assoc, take_append hfront, htake, List.append_assoc]

theorem WrittenItems.take {items : List Form} {cs rest : List Char} {fuel : Nat}
    (h : WrittenItems items cs) (seen : List Form) (hfuel : cs.length + 1 ≤ fuel) :
    takeItems fuel seen (cs ++ ']' :: rest) = some (seen.reverse ++ items, rest) := by
  obtain ⟨fuel, rfl⟩ : ∃ n, fuel = n + 1 := ⟨fuel - 1, by omega⟩
  match h with
  | @WrittenItems.last item cs h =>
    obtain ⟨gap, hgap, htake⟩ :=
      h.take (by omega : cs.length ≤ fuel) (']' :: rest) (.sign (by decide))
    rw [takeItems, htake]
    simp only [skip_gap_cons hgap (c := ']') rfl, List.reverse_cons]
  | @WrittenItems.cons item items cs behind h hs =>
    rw [List.length_append, List.length_cons] at hfuel
    obtain ⟨gap, hgap, htake⟩ :=
      h.take (by omega : cs.length ≤ fuel) (',' :: (behind ++ ']' :: rest)) (.sign (by decide))
    rw [List.append_assoc, List.cons_append, takeItems, htake]
    simp only [skip_gap_cons hgap (c := ',') rfl]
    rw [hs.take (item :: seen) (by omega : behind.length + 1 ≤ fuel), List.reverse_cons,
      List.append_assoc, List.singleton_append]

theorem WrittenFields.take {fields : List (List Piece × Form)} {cs rest : List Char} {fuel : Nat}
    (h : WrittenFields fields cs) (seen : List (List Piece × Form))
    (hfuel : cs.length + 1 ≤ fuel) :
    takeFields fuel seen (cs ++ closed :: rest) = some (seen.reverse ++ fields, rest) := by
  obtain ⟨fuel, rfl⟩ : ∃ n, fuel = n + 1 := ⟨fuel - 1, by omega⟩
  match h with
  | @WrittenFields.last key form ks cs hkey h =>
    rw [List.length_append, List.length_cons] at hfuel
    obtain ⟨before, hbefore, hks⟩ := takeKey_written hkey (':' :: (cs ++ closed :: rest))
    obtain ⟨gap, hgap, htake⟩ :=
      h.take (by omega : cs.length ≤ fuel) (closed :: rest) (.sign (by decide))
    rw [List.append_assoc, List.cons_append, takeFields, hks]
    simp only [takeMark_gap hbefore (c := ':') rfl, htake,
      skip_gap_cons hgap (c := closed) (by decide), List.reverse_cons]
    rfl
  | @WrittenFields.cons key form fields ks cs behind hkey h hs =>
    rw [List.length_append, List.length_cons, List.length_append, List.length_cons] at hfuel
    obtain ⟨before, hbefore, hks⟩ :=
      takeKey_written hkey (':' :: (cs ++ ',' :: (behind ++ closed :: rest)))
    obtain ⟨gap, hgap, htake⟩ :=
      h.take (by omega : cs.length ≤ fuel) (',' :: (behind ++ closed :: rest)) (.sign (by decide))
    rw [List.append_assoc, List.cons_append, List.append_assoc, List.cons_append, takeFields, hks]
    simp only [takeMark_gap hbefore (c := ':') rfl, htake,
      skip_gap_cons hgap (c := ',') rfl]
    rw [hs.take ((key, form) :: seen) (by omega : behind.length + 1 ≤ fuel), List.reverse_cons,
      List.append_assoc, List.singleton_append]

end

/-- **A document is read as it is written**, whatever the blanks in it and whatever of its
characters are escaped. -/
theorem read?_of_written {form : Form} {cs : List Char} (h : Written form cs) :
    read? cs = some form := by
  obtain ⟨gap, hgap, htake⟩ := h.take (by omega : cs.length ≤ 2 * cs.length + 2) [] nofun
  rw [List.append_nil, List.append_nil] at htake
  have hskip : skip gap = [] := by
    rw [← List.append_nil gap, skip_append hgap]
    rfl
  rw [read?, htake]
  simp only [hskip]
  rfl

end Form

/-! ### Integers -/

namespace Numeral

/-- An integer in its digits. -/
def ofInt (n : Int) : Numeral := ⟨decide (n < 0), Nat.toDigits 10 n.natAbs, [], false, false, []⟩

theorem head?_toDigits_ne {n : Nat} (h : 0 < n) : (Nat.toDigits 10 n).head? ≠ some '0' := by
  induction n using Nat.strongRecOn with
  | ind n ih =>
    rw [Nat.toDigits_eq_if (by decide)]
    split
    · rename_i hn
      have hdigits : ∀ m < 10, 0 < m → [Nat.digitChar m].head? ≠ some '0' := by decide
      exact hdigits n hn h
    · rename_i hn
      have hfront := ih (n / 10) (by omega) (by omega)
      rwa [List.head?_append_of_ne_nil _ Nat.toDigits_ne_nil]

theorem isWhole_toDigits (n : Nat) : IsWhole (Nat.toDigits 10 n) := by
  refine ⟨isNumeral_toDigits n, fun hhead => ?_⟩
  rcases Nat.eq_zero_or_pos n with rfl | hn
  · rfl
  · exact absurd hhead (head?_toDigits_ne hn)

/-- The digits of an integer are a numeral. -/
theorem written_ofInt (n : Int) : (ofInt n).Written (toString n).toList := by
  have hwritten := Written.plain (decide (n < 0)) (isWhole_toDigits n.natAbs) .none
  rw [List.append_nil] at hwritten
  have htext : (toString n).toList = sign (decide (n < 0)) ++ Nat.toDigits 10 n.natAbs := by
    rw [Int.toString_eq_repr, Int.repr_eq_if]
    split
    · rename_i hn
      have habs : n.toNat = n.natAbs := by omega
      rw [decide_eq_false (by omega), Nat.toList_repr, habs]
      rfl
    · rename_i hn
      have habs : (-n).toNat = n.natAbs := by omega
      rw [decide_eq_true (by omega), String.toList_append, Nat.toList_repr, habs]
      rfl
  rw [htext]
  exact hwritten

/-- No other numeral is written with these digits. -/
theorem eq_ofInt {numeral : Numeral} {n : Int} (h : numeral.Written (toString n).toList) :
    numeral = ofInt n := by
  have hend : Form.Ends [] := nofun
  have hread := Form.takeNumeral_written h hend
  rw [Form.takeNumeral_written (written_ofInt n) hend, Option.some_inj] at hread
  exact (congrArg Prod.fst hread).symm

theorem digitsValue_toDigits (n : Nat) : digitsValue (Nat.toDigits 10 n) = n :=
  Nat.ofDigitChars_ten_toDigits

/-- An integer from zero on keeps its value, if 64 bits hold it. -/
theorem value?_ofInt_natural {n : Nat} (h : n < 2 ^ 64) :
    (ofInt n).value? = some (.natural (UInt64.ofNat n)) := by
  have hfits : ¬maxSignificand < n := by
    rw [maxSignificand, Nat.pow_eq]
    omega
  have hsign : decide ((n : Int) < 0) = false := decide_eq_false (by omega)
  rw [value?, ofInt]
  simp only [digitsValue_toDigits, Int.natAbs_natCast, hfits, hsign, Bool.false_eq_true, or_self,
    ↓reduceIte, Bool.not_false]

/-- An integer below zero keeps its value, if 64 bits hold it with its sign. -/
theorem value?_ofInt_negative {n : Int} (hneg : n < 0) (hlow : -2 ^ 63 ≤ n) :
    (ofInt n).value? = some (.negative (Int64.ofInt n)) := by
  have hfits : ¬maxSignificand < n.natAbs := by
    rw [maxSignificand, Nat.pow_eq]
    omega
  have hrange : 0 < n.natAbs ∧ n.natAbs ≤ Nat.pow 2 63 := by
    rw [Nat.pow_eq]
    omega
  have hvalue : -(n.natAbs : Int) = n := by omega
  rw [value?, ofInt]
  simp only [digitsValue_toDigits, hfits, hrange, hneg, hvalue, decide_true, Bool.false_eq_true,
    or_self, and_self, ↓reduceIte, Bool.not_true]

end Numeral

/-! ### Strings without escapes -/

namespace Piece

/-- The characters of a string, none of them escaped. -/
def plain (s : String) : List Piece := s.toList.map .char

theorem text?_plain (s : String) : text? (plain s) = some s := by
  have hcharacters (cs : List Char) : characters? (cs.map .char) = some cs := by
    induction cs with
    | nil => rfl
    | cons c cs ih =>
      rw [List.map_cons, characters?, ih]
      rfl
  rw [text?, plain, hcharacters, Option.map_some, String.ofList_toList]

theorem quoted_plain {s : String} (h : s.toList.all isPlain = true) :
    Quoted (plain s) (quotes :: s.toList ++ [quotes]) := by
  have hwritten {cs : List Char} (h : ∀ c ∈ cs, isPlain c = true) :
      WrittenAll (cs.map .char) cs := by
    induction cs with
    | nil => exact .nil
    | cons c cs ih =>
      exact .cons (.plain (h c List.mem_cons_self)) (ih fun d hd => h d (List.mem_cons_of_mem c hd))
  exact ⟨s.toList, hwritten (List.all_eq_true.mp h), rfl⟩

end Piece

end SchemaMigration.Json
