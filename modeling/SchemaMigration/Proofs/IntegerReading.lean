import Mathlib.Data.Nat.Digits.Defs
import SchemaMigration.Proofs.TextCutting
import SchemaMigration.Value.Reading
/-! # Reading integers

An integer, a truth value and a text that writes an integer each stand for a number
(`Value.Denotes`).  A destination of integers takes the number if it holds it, and refuses it
otherwise; so two destinations never disagree on a value, and an integer reads like its text
(`Value.integers_read`).  A text writes a number of a type by an optional sign, a minus sign only
where the type has negative numbers, and by one or more digits behind it. -/
namespace SchemaMigration

open Number Text

/-! ### Numerals -/

namespace Number

theorem isDigit_iff {c : Char} : isDigit c = true ↔ 48 ≤ c.toNat ∧ c.toNat ≤ 57 := by
  rw [isDigit, Bool.and_eq_true, decide_eq_true_eq, decide_eq_true_eq, Char.le_def, Char.le_def]
  rfl

theorem isBlank_of_isDigit {c : Char} (h : isDigit c = true) : isBlank c = false := by
  have := isDigit_iff.mp h
  simp only [isBlank, Bool.or_eq_false_iff, Bool.and_eq_false_iff, decide_eq_false_iff_not,
    beq_eq_false_iff_ne]
  omega

/-- One or more digits. -/
def IsNumeral (cs : List Char) : Prop := cs ≠ [] ∧ ∀ c ∈ cs, isDigit c = true

theorem readDigits?_eq_some_iff {cs : List Char} {n : Nat} :
    readDigits? cs = some n ↔ IsNumeral cs ∧ Nat.ofDigitChars 10 cs 0 = n := by
  rw [readDigits?]
  split
  · rename_i hempty
    exact ⟨nofun, fun h => absurd (List.isEmpty_iff.mp hempty) h.1.1⟩
  · rename_i hempty
    have hne : cs ≠ [] := fun hnil => hempty (List.isEmpty_iff.mpr hnil)
    split
    · rename_i hall
      rw [Option.some_inj]
      exact ⟨fun h => ⟨⟨hne, List.all_eq_true.mp hall⟩, h⟩, And.right⟩
    · rename_i hall
      exact ⟨nofun, fun h => absurd (List.all_eq_true.mpr h.1.2) hall⟩

theorem IsNumeral.readDigits? {cs : List Char} (h : IsNumeral cs) :
    Number.readDigits? cs = some (Nat.ofDigitChars 10 cs 0) :=
  readDigits?_eq_some_iff.mpr ⟨h, rfl⟩

/-- A numeral begins with no sign. -/
theorem IsNumeral.head_ne {c : Char} {cs : List Char} (h : IsNumeral (c :: cs)) :
    c ≠ '+' ∧ c ≠ '-' := by
  have hc := h.2 c List.mem_cons_self
  constructor <;> rintro rfl <;> revert hc <;> decide

/-- What is printed of a natural number is a numeral. -/
theorem isNumeral_toDigits (n : Nat) : IsNumeral (Nat.toDigits 10 n) := by
  refine ⟨Nat.toDigits_ne_nil, fun c hc => ?_⟩
  rw [isDigit_iff]
  exact Char.isDigit_iff_toNat.mp (Nat.isDigit_of_mem_toDigits (by decide) (by decide) hc)

end Number

namespace IntegerType

/-- A text writes a number of a type: one or more digits with a sign or none, and the minus sign
only where the type has negative numbers. -/
inductive Writes (t : IntegerType) : List Char → Int → Prop
  | plain {digits : List Char} (h : IsNumeral digits) :
      Writes t digits (Nat.ofDigitChars 10 digits 0)
  | plus {digits : List Char} (h : IsNumeral digits) :
      Writes t ('+' :: digits) (Nat.ofDigitChars 10 digits 0)
  | minus {digits : List Char} (hsigned : t.isSigned = true) (h : IsNumeral digits) :
      Writes t ('-' :: digits) (-(Nat.ofDigitChars 10 digits 0 : Int))

end IntegerType

namespace Number

/-- Behind the other rules a text of digits is left. -/
theorem readUnsigned?_eq_some_iff {cs : List Char} {n : Nat} :
    readUnsigned? cs = some n ↔
      ∃ digits, (cs = digits ∨ cs = '+' :: digits) ∧ IsNumeral digits ∧
        Nat.ofDigitChars 10 digits 0 = n := by
  constructor
  · intro h
    unfold readUnsigned? at h
    split at h
    · exact ⟨_, .inr rfl, readDigits?_eq_some_iff.mp h⟩
    · exact ⟨_, .inl rfl, readDigits?_eq_some_iff.mp h⟩
  · rintro ⟨digits, rfl | rfl, hdigits, rfl⟩
    · unfold readUnsigned?
      split
      · exact absurd rfl hdigits.head_ne.1
      · exact hdigits.readDigits?
    · exact hdigits.readDigits?

theorem readSigned?_minus (cs : List Char) :
    readSigned? ('-' :: cs) = (readDigits? cs).map fun n : Nat => -(n : Int) := by
  rw [readSigned?]
  cases readDigits? cs <;> rfl

end Number

namespace IntegerType

variable {t u : IntegerType} {cs : List Char} {n : Int}

theorem readText?_eq_some_iff : t.readText? cs = some n ↔ t.Writes cs n := by
  rw [readText?]
  split
  · rename_i hsigned
    constructor
    · intro h
      unfold readSigned? at h
      split at h
      · rw [← readSigned?, readSigned?_minus] at h
        obtain ⟨k, hk, rfl⟩ := Option.map_eq_some_iff.mp h
        obtain ⟨hdigits, rfl⟩ := readDigits?_eq_some_iff.mp hk
        exact .minus hsigned hdigits
      · obtain ⟨k, hk, rfl⟩ := Option.map_eq_some_iff.mp h
        obtain ⟨digits, rfl | rfl, hdigits, rfl⟩ := readUnsigned?_eq_some_iff.mp hk
        · exact .plain hdigits
        · exact .plus hdigits
    · rintro (hdigits | hdigits | ⟨-, hdigits⟩)
      · unfold readSigned?
        split
        · exact absurd rfl hdigits.head_ne.2
        · rw [readUnsigned?_eq_some_iff.mpr ⟨_, .inl rfl, hdigits, rfl⟩]
          rfl
      · show (readUnsigned? _).map Int.ofNat = _
        rw [readUnsigned?_eq_some_iff.mpr ⟨_, .inr rfl, hdigits, rfl⟩]
        rfl
      · rw [readSigned?_minus, hdigits.readDigits?]
        rfl
  · rename_i hsigned
    constructor
    · intro h
      obtain ⟨k, hk, rfl⟩ := Option.map_eq_some_iff.mp h
      obtain ⟨digits, rfl | rfl, hdigits, rfl⟩ := readUnsigned?_eq_some_iff.mp hk
      · exact .plain hdigits
      · exact .plus hdigits
    · rintro (hdigits | hdigits | ⟨h, -⟩)
      · rw [readUnsigned?_eq_some_iff.mpr ⟨_, .inl rfl, hdigits, rfl⟩]
        rfl
      · rw [readUnsigned?_eq_some_iff.mpr ⟨_, .inr rfl, hdigits, rfl⟩]
        rfl
      · exact absurd h hsigned

/-- Nothing that is written holds a blank. -/
theorem Writes.solid (h : t.Writes cs n) : ∀ c ∈ cs, isBlank c = false := by
  have hdigits {digits : List Char} (h : IsNumeral digits) : ∀ c ∈ digits, isBlank c = false :=
    fun c hc => isBlank_of_isDigit (h.2 c hc)
  rcases h with h | h | ⟨-, h⟩
  · exact hdigits h
  all_goals
    intro c hc
    rcases List.mem_cons.mp hc with rfl | hc
    · decide
    · exact hdigits h c hc

/-! ### The numbers of a type -/

theorem low_eq_zero (h : t.isSigned = false) : t.low = 0 := by
  rw [low, h]
  rfl

theorem low_neg (h : t.isSigned = true) : t.low < 0 := by
  cases t <;> first | decide | cases h

theorem range_of_signed (h : t.isSigned = true) : -2 ^ 63 ≤ t.low ∧ t.high < 2 ^ 63 := by
  cases t <;> first | decide | cases h

theorem low_i64_le (t : IntegerType) : i64.low ≤ t.low := by
  cases t <;> decide

theorem high_lt (t : IntegerType) : t.high < 2 ^ 64 := by
  cases t <;> decide

theorem holds_iff : t.holds n = true ↔ t.low ≤ n ∧ n ≤ t.high := by
  rw [holds, Bool.and_eq_true, decide_eq_true_eq, decide_eq_true_eq]

/-- A type whose range takes in that of another reads the texts of the other. -/
theorem Writes.mono (h : t.Writes cs n) (hlow : u.low ≤ t.low) : u.Writes cs n := by
  rcases h with h | h | ⟨hsigned, h⟩
  · exact .plain h
  · exact .plus h
  · refine .minus ?_ h
    by_contra hu
    have := low_eq_zero (Bool.eq_false_iff.mpr hu)
    have := low_neg hsigned
    omega

end IntegerType

/-! ### What a value stands for -/

/-- The number that a value stands for where an integer of a type is asked for: a truth value is
zero or one, and a text may have blanks at both ends. -/
inductive Value.Denotes (t : IntegerType) : Value → Int → Prop
  | int (n : Int64) : Denotes t (.int n) n.toInt
  | uint (n : UInt64) : Denotes t (.uint n) n.toNat
  | bool (b : Bool) : Denotes t (.bool b) b.toNat
  | text {s : String} {front numeral back : List Char} {n : Int}
      (hs : s.toList = front ++ numeral ++ back) (hfront : ∀ c ∈ front, isBlank c = true)
      (hback : ∀ c ∈ back, isBlank c = true) (h : t.Writes numeral n) : Denotes t (.text s) n

/-- What was read is a number, held by the kind of integers that the type belongs to. -/
def Datum.IsInteger (t : IntegerType) (n : Int) : Datum → Prop
  | .value (.int m) => t.isSigned = true ∧ m.toInt = n
  | .value (.uint m) => t.isSigned = false ∧ m.toNat = n
  | _ => False

namespace Value

variable {t u : IntegerType} {v w : Value} {n m : Int} {optional : Bool}

theorem denotes?_eq_some_iff : v.denotes? t = some n ↔ v.Denotes t n := by
  constructor
  · intro h
    cases v with
    | int k => cases h; exact .int k
    | uint k => cases h; exact .uint k
    | bool b =>
      cases h
      cases b
      · exact .bool false
      · exact .bool true
    | text s =>
      obtain ⟨front, back, hs, hfront, hback⟩ := trim_parts s.toList
      exact .text hs hfront hback (IntegerType.readText?_eq_some_iff.mp h)
    | null | float | bytes | time | tuple => cases h
  · rintro (k | k | b | ⟨hs, hfront, hback, h⟩)
    · rfl
    · rfl
    · cases b <;> rfl
    · rw [denotes?, hs, trim_of_solid hfront hback h.solid]
      exact IntegerType.readText?_eq_some_iff.mpr h

theorem Denotes.mono (h : v.Denotes t n) (hlow : u.low ≤ t.low) : v.Denotes u n := by
  rcases h with k | k | b | ⟨hs, hfront, hback, h⟩
  · exact .int k
  · exact .uint k
  · exact .bool b
  · exact .text hs hfront hback (h.mono hlow)

/-- A value stands for one number, whatever the types that are asked for. -/
theorem Denotes.unique (h : v.Denotes t n) (h' : v.Denotes u m) : n = m := by
  have hi := denotes?_eq_some_iff.mpr (h.mono t.low_i64_le)
  have hi' := denotes?_eq_some_iff.mpr (h'.mono u.low_i64_le)
  exact Option.some.inj (hi.symm.trans hi')

/-- A number of a type is kept by the integers that the type belongs to. -/
theorem ofInteger_isInteger (hlow : t.low ≤ n) (hhigh : n ≤ t.high) :
    (Datum.value (ofInteger t n)).IsInteger t n := by
  rw [ofInteger]
  split
  · rename_i hsigned
    have ⟨hleast, hgreatest⟩ := IntegerType.range_of_signed hsigned
    exact ⟨hsigned, Int64.toInt_ofInt_of_le (by omega) (by omega)⟩
  · rename_i hsigned
    have hunsigned : t.isSigned = false := Bool.eq_false_iff.mpr hsigned
    have hzero := IntegerType.low_eq_zero hunsigned
    have hgreatest := t.high_lt
    have hfits : n.toNat < UInt64.size := show n.toNat < 2 ^ 64 by omega
    refine ⟨hunsigned, ?_⟩
    rw [UInt64.toNat_ofNat_of_lt' hfits]
    omega

theorem toInteger_eq_ok_iff :
    v.toInteger t = .ok n ↔ v.Denotes t n ∧ t.low ≤ n ∧ n ≤ t.high := by
  rw [toInteger, ← denotes?_eq_some_iff, ← IntegerType.holds_iff]
  split
  · split
    · rename_i k hk
      rw [hk, Option.some_inj]
      split
      · rename_i hholds
        constructor
        · rintro ⟨⟩
          exact ⟨rfl, hholds⟩
        · rintro ⟨rfl, -⟩
          rfl
      · rename_i hholds
        refine ⟨nofun, ?_⟩
        rintro ⟨rfl, h⟩
        exact absurd h hholds
    · rename_i hnone
      rw [hnone]
      exact ⟨nofun, fun h => nomatch h.1⟩
  · rename_i hv
    refine ⟨nofun, fun h => absurd ?_ hv⟩
    rw [denotes?_eq_some_iff] at h
    rcases h.1 with _ | _ | _ | _ <;> rfl

/-- What a value does not hold as a number of the type is refused, with the kinds of both. -/
theorem toInteger_eq_error (hv : v.isIntegral = true)
    (h : ∀ n, v.Denotes t n → ¬(t.low ≤ n ∧ n ≤ t.high)) :
    v.toInteger t = .error (.conversion v.kind t.name) := by
  rw [toInteger, if_pos hv]
  split
  · rename_i n hn
    rw [if_neg]
    rw [IntegerType.holds_iff]
    exact h n (denotes?_eq_some_iff.mp hn)
  · rfl

theorem not_isNull_of_isIntegral (hv : v.isIntegral = true) : v.isNull = false := by
  cases v <;> first | rfl | cases hv

/-- A value that is not null is read alike by a destination that takes nulls. -/
theorem read_of_not_isNull (hv : v.isNull = false) (d : Destination) :
    v.read d = v.readScalar d.scalar := by
  rw [read, hv, Bool.and_false, if_neg Bool.false_ne_true]

theorem read_integer (hv : v.isIntegral = true) :
    v.read ⟨.integer t, optional⟩ = (v.toInteger t).map fun n => .value (ofInteger t n) :=
  read_of_not_isNull (not_isNull_of_isIntegral hv) _

end Value

theorem Datum.IsInteger.unique {t : IntegerType} {x : Datum} {n m : Int} (h : x.IsInteger t n)
    (h' : x.IsInteger t m) : n = m := by
  rcases x with (_ | _ | _ | _ | _ | _ | _ | _ | _) | _ <;>
    first | exact h.elim | exact h.2.symm.trans h'.2

theorem Datum.IsInteger.eq_ofInteger {t : IntegerType} {x : Datum} {n : Int}
    (h : x.IsInteger t n) : x = .value (.ofInteger t n) := by
  rcases x with (_ | _ | _ | _ | _ | _ | _ | _ | _) | _
  case value.int m =>
    obtain ⟨hsigned, rfl⟩ := h
    rw [Value.ofInteger, if_pos hsigned, Int64.ofInt_toInt]
  case value.uint m =>
    obtain ⟨hsigned, rfl⟩ := h
    rw [Value.ofInteger, hsigned, if_neg Bool.false_ne_true, Int.toNat_natCast, UInt64.ofNat_toNat]
  all_goals exact h.elim

/-- A failure without the kind of the value that it names. -/
def Failure.withoutKind : Failure → Failure
  | .conversion _ destination => .conversion "" destination
  | e => e

/-- Values that stand for the same numbers of a type are read alike, up to their kinds. -/
theorem Value.toInteger_congr {t : IntegerType} {v w : Value} (hv : v.isIntegral = true)
    (hw : w.isIntegral = true)
    (h : ∀ n, t.low ≤ n → n ≤ t.high → (v.Denotes t n ↔ w.Denotes t n)) :
    (v.toInteger t).mapError Failure.withoutKind =
      (w.toInteger t).mapError Failure.withoutKind := by
  by_cases hfits : ∃ n, v.Denotes t n ∧ t.low ≤ n ∧ n ≤ t.high
  · obtain ⟨n, hn, hlow, hhigh⟩ := hfits
    rw [toInteger_eq_ok_iff.mpr ⟨hn, hlow, hhigh⟩,
      toInteger_eq_ok_iff.mpr ⟨(h n hlow hhigh).mp hn, hlow, hhigh⟩]
  · rw [toInteger_eq_error hv fun n hn hn' => hfits ⟨n, hn, hn'⟩,
      toInteger_eq_error hw fun n hn hn' => hfits ⟨n, (h n hn'.1 hn'.2).mpr hn, hn'⟩]
    rfl

/-- What is done with an answer does not bring the kind back. -/
theorem Failure.map_withoutKind_congr {α β : Type} {r r' : Except Failure α} (f : α → β)
    (h : r.mapError withoutKind = r'.mapError withoutKind) :
    (r.map f).mapError withoutKind = (r'.map f).mapError withoutKind := by
  have hcomm (r : Except Failure α) :
      (r.map f).mapError withoutKind = (r.mapError withoutKind).map f := by
    cases r <;> rfl
  rw [hcomm, hcomm, h]

theorem Value.read_integer_congr {t : IntegerType} {v w : Value} {optional : Bool}
    (hv : v.isIntegral = true) (hw : w.isIntegral = true)
    (h : ∀ n, t.low ≤ n → n ≤ t.high → (v.Denotes t n ↔ w.Denotes t n)) :
    (v.read ⟨.integer t, optional⟩).mapError Failure.withoutKind =
      (w.read ⟨.integer t, optional⟩).mapError Failure.withoutKind := by
  rw [read_integer hv, read_integer hw]
  exact Failure.map_withoutKind_congr _ (toInteger_congr hv hw h)

/-! ### The text of an integer -/

namespace IntegerType

variable {t : IntegerType} {n m : Int}

/-- What is printed of an integer writes it, for every type that has such numbers. -/
theorem writes_toString (h : t.isSigned = true ∨ 0 ≤ n) : t.Writes (toString n).toList n := by
  rw [Int.toString_eq_repr, Int.repr_eq_if]
  split
  · rename_i hn
    have hplain := Writes.plain (t := t) (isNumeral_toDigits n.toNat)
    rwa [Nat.ofDigitChars_ten_toDigits, Int.toNat_of_nonneg hn, ← Nat.toList_repr] at hplain
  · rename_i hn
    have hminus := Writes.minus (h.resolve_right hn) (isNumeral_toDigits (-n).toNat)
    rw [Nat.ofDigitChars_ten_toDigits, Int.toNat_of_nonneg (by omega), neg_neg,
      ← Nat.toList_repr] at hminus
    rwa [String.toList_append]

theorem isSigned_or_nonneg (h : t.low ≤ n) : t.isSigned = true ∨ 0 ≤ n := by
  cases hsigned : t.isSigned with
  | true => exact .inl rfl
  | false => exact .inr (low_eq_zero hsigned ▸ h)

end IntegerType

namespace Value

variable {t : IntegerType} {v : Value} {n m : Int} {s : String} {optional : Bool}

theorem denotes_toString (h : t.isSigned = true ∨ 0 ≤ n) : (text (toString n)).Denotes t n := by
  have hs : (toString n).toList = [] ++ (toString n).toList ++ [] := by simp
  exact .text hs nofun nofun (IntegerType.writes_toString h)

/-- The text of an integer stands for this integer and for no other number. -/
theorem denotes_toString_iff (h : t.low ≤ m) : (text (toString n)).Denotes t m ↔ m = n := by
  constructor
  · intro hm
    have hi64 : (text (toString n)).Denotes .i64 n := denotes_toString (.inl rfl)
    exact hm.unique hi64
  · rintro rfl
    exact denotes_toString (IntegerType.isSigned_or_nonneg h)

/-- An integer reads like its text. -/
theorem read_text_of_integer (hv : (∃ k, v = .int k) ∨ ∃ k, v = .uint k) (hs : v.toText = .ok s) :
    ((text s).read ⟨.integer t, optional⟩).mapError Failure.withoutKind =
      (v.read ⟨.integer t, optional⟩).mapError Failure.withoutKind := by
  rcases hv with ⟨k, rfl⟩ | ⟨k, rfl⟩
  · cases hs
    refine read_integer_congr rfl rfl fun m hlow _ => (denotes_toString_iff hlow).trans ?_
    exact ⟨fun h => h ▸ .int k, fun h => h.unique (.int k (t := t))⟩
  · cases hs
    refine read_integer_congr rfl rfl fun m hlow _ => ?_
    refine (denotes_toString_iff (n := (k.toNat : Int)) hlow).trans ?_
    exact ⟨fun h => h ▸ .uint k, fun h => h.unique (.uint k (t := t))⟩

/-- What was read as an integer of a type is a number that the value stands for and that the type
holds. -/
theorem read_integer_eq_ok_iff (hv : v.isIntegral = true) {x : Datum} :
    v.read ⟨.integer t, optional⟩ = .ok x ↔
      ∃ n, x.IsInteger t n ∧ v.Denotes t n ∧ t.low ≤ n ∧ n ≤ t.high := by
  rw [read_integer hv]
  constructor
  · intro h
    rcases hn : v.toInteger t with e | n
    · rw [hn] at h
      cases h
    · rw [hn] at h
      cases h
      obtain ⟨hdenotes, hlow, hhigh⟩ := toInteger_eq_ok_iff.mp hn
      exact ⟨n, ofInteger_isInteger hlow hhigh, hdenotes, hlow, hhigh⟩
  · rintro ⟨n, hx, hn⟩
    rw [toInteger_eq_ok_iff.mpr hn, hx.eq_ofInteger]
    rfl

/-- **Integers are read exactly.**  An integer, a truth value or a text is read into a destination
of integers

* with a result exactly if it stands for a number that the type holds, and the result is this
  number;
* with a failure that names both kinds in all other cases;
* as the same number by any two types that read it at all;
* by every type whose range takes in that of a type that reads it;
* like its text, when it is an integer. -/
theorem integers_read (hv : v.isIntegral = true) (t : IntegerType) (optional : Bool) :
    (∀ x, v.read ⟨.integer t, optional⟩ = .ok x ↔
      ∃ n, x.IsInteger t n ∧ v.Denotes t n ∧ t.low ≤ n ∧ n ≤ t.high) ∧
    ((∀ n, v.Denotes t n → ¬(t.low ≤ n ∧ n ≤ t.high)) →
      v.read ⟨.integer t, optional⟩ = .error (.conversion v.kind t.name)) ∧
    (∀ u x y n m, v.read ⟨.integer t, optional⟩ = .ok x → v.read ⟨.integer u, optional⟩ = .ok y →
      x.IsInteger t n → y.IsInteger u m → n = m) ∧
    (∀ u x n, v.read ⟨.integer t, optional⟩ = .ok x → x.IsInteger t n →
      u.low ≤ t.low → t.high ≤ u.high →
      ∃ y, v.read ⟨.integer u, optional⟩ = .ok y ∧ y.IsInteger u n) ∧
    (∀ s, ((∃ k, v = .int k) ∨ ∃ k, v = .uint k) → v.toText = .ok s →
      ((text s).read ⟨.integer t, optional⟩).mapError Failure.withoutKind =
        (v.read ⟨.integer t, optional⟩).mapError Failure.withoutKind) := by
  refine ⟨fun x => read_integer_eq_ok_iff hv, fun h => ?_, ?_, ?_,
    fun s hkind hs => read_text_of_integer hkind hs⟩
  · rw [read_integer hv, toInteger_eq_error hv h]
    rfl
  · intro u x y n m hx hy hn hm
    obtain ⟨n', hn', hdenotes, -⟩ := (read_integer_eq_ok_iff hv).mp hx
    obtain ⟨m', hm', hdenotes', -⟩ := (read_integer_eq_ok_iff hv).mp hy
    rw [hn.unique hn', hm.unique hm', hdenotes.unique hdenotes']
  · intro u x n hx hn hlow hhigh
    obtain ⟨n', hn', hdenotes, hleast, hgreatest⟩ := (read_integer_eq_ok_iff hv).mp hx
    rw [hn.unique hn']
    have hu := ofInteger_isInteger (hlow.trans hleast) (hgreatest.trans hhigh)
    exact ⟨_, (read_integer_eq_ok_iff hv).mpr ⟨n', hu, hdenotes.mono hlow, hlow.trans hleast,
      hgreatest.trans hhigh⟩, hu⟩

/-- So it is with a numeral that has a sign, a zero and blanks around it, and that eight bits hold
only without negative numbers. -/
theorem integers_read_padded :
    isIntegral (.text " +0255\n") = true ∧
      (text " +0255\n").read ⟨.integer .u8, false⟩ = .ok (.value (.uint 255)) ∧
      (text " +0255\n").read ⟨.integer .i8, false⟩ = .error (.conversion "text" "i8") ∧
      (text " +0255\n").read ⟨.integer .i16, false⟩ = .ok (.value (.int 255)) := by
  have hnumeral : IsNumeral ['0', '2', '5', '5'] := ⟨nofun, List.all_eq_true.mp rfl⟩
  have hs : " +0255\n".toList = [' '] ++ '+' :: ['0', '2', '5', '5'] ++ ['\n'] := rfl
  have hdenotes (t : IntegerType) : (text " +0255\n").Denotes t 255 :=
    .text hs (List.all_eq_true.mp rfl) (List.all_eq_true.mp rfl) (.plus hnumeral)
  have hu8 := integers_read (v := text " +0255\n") rfl .u8 false
  have hi8 := integers_read (v := text " +0255\n") rfl .i8 false
  have hread : (text " +0255\n").read ⟨.integer .u8, false⟩ = .ok (.value (.uint 255)) :=
    (hu8.1 _).mpr ⟨255, ⟨rfl, rfl⟩, hdenotes .u8, by decide, by decide⟩
  refine ⟨rfl, hread, hi8.2.1 fun n hn => ?_, ?_⟩
  · rw [hn.unique (hdenotes .i8)]
    decide
  · obtain ⟨y, hy, hinteger⟩ :=
      hu8.2.2.2.1 .i16 _ 255 hread ⟨rfl, rfl⟩ (by decide) (by decide)
    rw [hy, hinteger.eq_ofInteger]
    rfl

end Value

end SchemaMigration
