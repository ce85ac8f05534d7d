import Mathlib.Tactic.IntervalCases
import SchemaMigration.Proofs.TextCutting
import SchemaMigration.Text.Percent
/-! # Written forms of a text

Each way to write a text is undone by its reader.  A character is written as one byte that is read
as it, or as a first byte that begins it and others that end it (`encodeChar_cases`); so strict and
lossy reading find the same characters again (`Utf8.decode_encode`, `Utf8.decodeLossy_encode`).

In the percent coded forms every byte is written as itself or escaped, and either is read as the
byte whatever comes behind it (`unescape_flatMap`).  What is written holds none of the characters
that part a name or a form (`isCoded_of_mem_encode`, `isCoded_of_mem_encodeField`), and a form is
read as the pairs that were written (`readForm_writeForm`). -/
namespace SchemaMigration.Text.Utf8

theorem toNat_toUInt8 {n : Nat} (h : n < 256) : n.toUInt8.toNat = n := by
  rw [Nat.toUInt8, UInt8.toNat_ofNat']
  exact Nat.mod_eq_of_lt h

/-- The bytes that end a character which was begun. -/
inductive Ends (c : Char) : Begun → List UInt8 → Prop
  | last {p b} (h : follow p b = .ended c) : Ends c p [b]
  | more {p q b bs} (h : follow p b = .begun q) (hrest : Ends c q bs) : Ends c p (b :: bs)

/-- A byte that carries six bits ends a character. -/
theorem follow_last {v size : Nat} {low high : UInt8} {m n : Nat} (hm : m < 64)
    (hlow : low.toNat ≤ 0x80 + m) (hhigh : 0x80 + m ≤ high.toNat) (hn : v * 64 + m = n) :
    follow ⟨v, size, 0, low, high⟩ (0x80 + m).toUInt8 = .ended (Char.ofNat n) := by
  have hbyte : (0x80 + m).toUInt8.toNat = 0x80 + m := toNat_toUInt8 (by omega)
  have hmod : (0x80 + m) % 64 = m := by omega
  have hbounds : low ≤ (0x80 + m).toUInt8 ∧ (0x80 + m).toUInt8 ≤ high := by
    rw [UInt8.le_iff_toNat_le, UInt8.le_iff_toNat_le, hbyte]
    exact ⟨hlow, hhigh⟩
  rw [follow, if_pos hbounds, hbyte, hmod, hn]

theorem follow_more {v size more : Nat} {low high : UInt8} {m : Nat} (hm : m < 64)
    (hlow : low.toNat ≤ 0x80 + m) (hhigh : 0x80 + m ≤ high.toNat) :
    follow ⟨v, size, more + 1, low, high⟩ (0x80 + m).toUInt8 =
      .begun ⟨v * 64 + m, size + 1, more, 0x80, 0xBF⟩ := by
  have hbyte : (0x80 + m).toUInt8.toNat = 0x80 + m := toNat_toUInt8 (by omega)
  have hmod : (0x80 + m) % 64 = m := by omega
  have hbounds : low ≤ (0x80 + m).toUInt8 ∧ (0x80 + m).toUInt8 ≤ high := by
    rw [UInt8.le_iff_toNat_le, UInt8.le_iff_toNat_le, hbyte]
    exact ⟨hlow, hhigh⟩
  rw [follow, if_pos hbounds, hbyte, hmod]

theorem lead_two {a : Nat} (hlow : 2 ≤ a) (hhigh : a < 32) :
    lead (0xC0 + a).toUInt8 = .begun ⟨a, 1, 0, 0x80, 0xBF⟩ := by
  have hmod : (0xC0 + a) % 32 = a := by omega
  simp only [lead, toNat_toUInt8 (show 0xC0 + a < 256 by omega)]
  rw [if_neg (by omega), if_neg (by omega), if_pos (by omega), hmod]

theorem lead_three {a : Nat} (ha : a < 16) :
    ∃ low high, lead (0xE0 + a).toUInt8 = .begun ⟨a, 1, 1, low, high⟩ ∧
      low.toNat = (if a = 0 then 0xA0 else 0x80) ∧
      high.toNat = (if a = 13 then 0x9F else 0xBF) := by
  interval_cases a <;> exact ⟨_, _, rfl, rfl, rfl⟩

theorem lead_four {a : Nat} (ha : a < 5) :
    ∃ low high, lead (0xF0 + a).toUInt8 = .begun ⟨a, 1, 2, low, high⟩ ∧
      low.toNat = (if a = 0 then 0x90 else 0x80) ∧
      high.toNat = (if a = 4 then 0x8F else 0xBF) := by
  interval_cases a <;> exact ⟨_, _, rfl, rfl, rfl⟩

/-- The last six bits of a character end it. -/
theorem follow_end {c : Char} {v size : Nat} {low high : UInt8}
    (hlow : low.toNat ≤ 0x80 + c.toNat % 64) (hhigh : 0x80 + c.toNat % 64 ≤ high.toNat)
    (hv : v = c.toNat / 64) :
    follow ⟨v, size, 0, low, high⟩ (0x80 + c.toNat % 64).toUInt8 = .ended c := by
  rw [follow_last (Nat.mod_lt _ (by decide)) hlow hhigh rfl, hv, Nat.div_add_mod',
    Char.ofNat_toNat]

/-- A character is one byte that is read as it, or it is begun by its first byte and ended by the
others. -/
theorem encodeChar_cases (c : Char) :
    (∃ b, encodeChar c = [b] ∧ lead b = .ascii c) ∨
      ∃ b bs p, encodeChar c = b :: bs ∧ lead b = .begun p ∧ Ends c p bs := by
  have hvalid : c.toNat < 0xD800 ∨ 0xDFFF < c.toNat ∧ c.toNat < 0x110000 := c.valid
  have hsix (n : Nat) : n % 64 < 64 := Nat.mod_lt _ (by decide)
  have hlow (n : Nat) : (0x80 : UInt8).toNat ≤ 0x80 + n % 64 := Nat.le_add_right _ _
  have hhigh (n : Nat) : 0x80 + n % 64 ≤ (0xBF : UInt8).toNat :=
    Nat.add_le_add_left (Nat.le_of_lt_succ (hsix n)) 0x80
  simp only [encodeChar]
  split
  · rename_i hone
    refine .inl ⟨_, rfl, ?_⟩
    simp only [lead, toNat_toUInt8 (show c.toNat < 256 by omega), if_pos hone, Char.ofNat_toNat]
  · split
    · refine .inr ⟨_, _, _, rfl, lead_two (by omega) (by omega), .last ?_⟩
      exact follow_end (hlow _) (hhigh _) rfl
    · split
      · obtain ⟨low, high, hlead, hlow', hhigh'⟩ := lead_three (a := c.toNat / 4096) (by omega)
        refine .inr ⟨_, _, _, rfl, hlead, .more (follow_more (hsix _) ?_ ?_) (.last ?_)⟩
        · rw [hlow']; split <;> omega
        · rw [hhigh']; split <;> omega
        · exact follow_end (hlow _) (hhigh _) (by omega)
      · obtain ⟨low, high, hlead, hlow', hhigh'⟩ := lead_four (a := c.toNat / 262144) (by omega)
        refine .inr ⟨_, _, _, rfl, hlead, .more (follow_more (hsix _) ?_ ?_)
          (.more (follow_more (hsix _) (hlow _) (hhigh _)) (.last ?_))⟩
        · rw [hlow']; split <;> omega
        · rw [hhigh']; split <;> omega
        · exact follow_end (hlow _) (hhigh _) (by omega)

/-! ### Reading what was written -/

/-- A character that was begun is read by its other bytes. -/
theorem Ends.run {c : Char} {p : Begun} {bs : List UInt8} (h : Ends c p bs) (chars : List Char)
    (index : Nat) (rest : List UInt8) :
    ∃ index', Reader.run ⟨chars, some p, index⟩ (bs ++ rest) =
      Reader.run ⟨c :: chars, none, index'⟩ rest := by
  induction h generalizing index with
  | last h =>
    refine ⟨index + 1, ?_⟩
    rw [List.singleton_append, Reader.run]
    simp only [Reader.step, h]
  | more h hrest ih =>
    obtain ⟨index', hrun⟩ := ih (index + 1)
    refine ⟨index', ?_⟩
    rw [List.cons_append, Reader.run]
    simp only [Reader.step, h]
    exact hrun

theorem run_encodeChar (c : Char) (chars : List Char) (index : Nat) (rest : List UInt8) :
    ∃ index', Reader.run ⟨chars, none, index⟩ (encodeChar c ++ rest) =
      Reader.run ⟨c :: chars, none, index'⟩ rest := by
  rcases encodeChar_cases c with ⟨b, hc, hlead⟩ | ⟨b, bs, p, hc, hlead, hends⟩
  · refine ⟨index + 1, ?_⟩
    rw [hc, List.singleton_append, Reader.run]
    simp only [Reader.step, hlead]
  · obtain ⟨index', hrun⟩ := hends.run chars (index + 1) rest
    refine ⟨index', ?_⟩
    rw [hc, List.cons_append, Reader.run]
    simp only [Reader.step, hlead]
    exact hrun

/-- A text is read as it was written. -/
theorem decode_encode (cs : List Char) : decode (encode cs) = .ok cs := by
  have hrun (chars : List Char) (index : Nat) :
      Reader.run ⟨chars, none, index⟩ (encode cs) = .ok (chars.reverse ++ cs) := by
    induction cs generalizing chars index with
    | nil => exact congrArg Except.ok (List.append_nil _).symm
    | cons c cs ih =>
      obtain ⟨index', hchar⟩ := run_encodeChar c chars index (encode cs)
      rw [encode, List.flatMap_cons]
      refine hchar.trans ?_
      rw [ih, List.reverse_cons, List.append_assoc]
      rfl
  exact hrun [] 0

theorem Ends.lossy {c : Char} {p : Begun} {bs : List UInt8} (h : Ends c p bs)
    (chars : List Char) : bs.foldl lossyStep (chars, some p) = (c :: chars, none) := by
  induction h with
  | last h => simp only [List.foldl_cons, List.foldl_nil, lossyStep, h]
  | more h hrest ih =>
    rw [List.foldl_cons]
    simp only [lossyStep, h]
    exact ih

/-- So it is when faults are replaced, since there are none. -/
theorem decodeLossy_encode (cs : List Char) : decodeLossy (encode cs) = cs := by
  have hchar (c : Char) (chars : List Char) :
      (encodeChar c).foldl lossyStep (chars, none) = (c :: chars, none) := by
    rcases encodeChar_cases c with ⟨b, hc, hlead⟩ | ⟨b, bs, p, hc, hlead, hends⟩
    · rw [hc]
      simp only [List.foldl_cons, List.foldl_nil, lossyStep, hlead]
    · rw [hc, List.foldl_cons]
      simp only [lossyStep, hlead]
      exact hends.lossy chars
  have hfold (chars : List Char) :
      (encode cs).foldl lossyStep (chars, none) = (cs.reverse ++ chars, none) := by
    induction cs generalizing chars with
    | nil => rfl
    | cons c cs ih =>
      rw [encode, List.flatMap_cons, List.foldl_append, hchar]
      refine (ih _).trans ?_
      simp
  simp [decodeLossy, hfold]

theorem encode_append (cs ds : List Char) : encode (cs ++ ds) = encode cs ++ encode ds :=
  List.flatMap_append

theorem encodeChar_ascii {c : Char} (h : c.toNat < 0x80) : encodeChar c = [c.toNat.toUInt8] := by
  simp only [encodeChar, if_pos h]

theorem encode_cons_ascii {c : Char} (h : c.toNat < 0x80) (cs : List Char) :
    encode (c :: cs) = c.toNat.toUInt8 :: encode cs := by
  rw [encode, List.flatMap_cons, encodeChar_ascii h]
  rfl

/-- A byte below `0x80` is written for a character of its own only. -/
theorem mem_of_mem_encode {b : UInt8} {cs : List Char} (h : b ∈ encode cs) (hb : b < 0x80) :
    Char.ofNat b.toNat ∈ cs :=
  mem_of_decode_ok (decode_encode cs) h hb

end SchemaMigration.Text.Utf8

namespace SchemaMigration.Text.Percent

open Utf8

/-! ### Percent coding -/

theorem unescape_cons_of_ne {b : UInt8} (h : b ≠ 37) (rest : List UInt8) :
    unescape (b :: rest) = b :: unescape rest := by
  rcases rest with _ | ⟨c, _ | ⟨d, rest⟩⟩
  · rfl
  · rfl
  · rw [unescape, if_neg h]

/-- A digit is one character, a letter or a digit, and has its value. -/
theorem digit_spec {n : Nat} (h : n < 16) :
    (digit n).toNat < 0x80 ∧ (digit n).isAlphanum = true ∧
      digitValue? (digit n).toNat.toUInt8 = some n := by
  interval_cases n <;> decide

/-- What stands for a byte is read as the byte. -/
theorem unescape_escape (b : UInt8) (rest : List UInt8) :
    unescape (Utf8.encode (escape b) ++ rest) = b :: unescape rest := by
  have hlt : b.toNat < 256 := b.toNat_lt
  obtain ⟨hhigh, -, hx⟩ := digit_spec (n := b.toNat / 16) (by omega)
  obtain ⟨hlow, -, hy⟩ := digit_spec (n := b.toNat % 16) (by omega)
  have hbyte : 16 * (b.toNat / 16) + b.toNat % 16 = b.toNat := Nat.div_add_mod _ _
  rw [escape, encode_cons_ascii (by decide), encode_cons_ascii hhigh, encode_cons_ascii hlow]
  show unescape (37 :: _ :: _ :: rest) = _
  rw [unescape, if_pos rfl, hx, hy]
  simp only [hbyte, Nat.toUInt8, UInt8.ofNat_toNat]

theorem toNat_ofNat_of_lt {n : Nat} (h : n < 0x80) : (Char.ofNat n).toNat = n := by
  have hall : ∀ n < 0x80, (Char.ofNat n).toNat = n := by decide
  exact hall n h

/-- So is a byte below `0x80` that stands for itself, unless it is `%`. -/
theorem unescape_ascii {b : UInt8} (hb : b.toNat < 0x80) (hne : b ≠ 37) (rest : List UInt8) :
    unescape (Utf8.encode [Char.ofNat b.toNat] ++ rest) = b :: unescape rest := by
  have hchar := toNat_ofNat_of_lt hb
  rw [encode_cons_ascii (by rw [hchar]; exact hb), hchar, Nat.toUInt8, UInt8.ofNat_toNat]
  exact unescape_cons_of_ne hne rest

/-- A way to write bytes is undone if it is for each byte, whatever comes behind. -/
theorem unescape_flatMap {write : UInt8 → List Char}
    (h : ∀ b rest, unescape (Utf8.encode (write b) ++ rest) = b :: unescape rest)
    (bs : List UInt8) : unescape (Utf8.encode (bs.flatMap write)) = bs := by
  induction bs with
  | nil => rfl
  | cons b bs ih => rw [List.flatMap_cons, encode_append, h, ih]

/-- The characters of a text in one of the two forms. -/
def isCoded (c : Char) : Bool :=
  c.isAlphanum || c == '-' || c == '.' || c == '_' || c == '~' || c == '*' || c == '+' || c == '%'

theorem isCoded_of_mem_escape {b : UInt8} {c : Char} (h : c ∈ escape b) : isCoded c = true := by
  have hlt : b.toNat < 256 := b.toNat_lt
  have hdigit {n : Nat} (hn : n < 16) : isCoded (digit n) = true := by
    simp only [isCoded, (digit_spec hn).2.1, Bool.true_or]
  simp only [escape, List.mem_cons, List.not_mem_nil, or_false] at h
  rcases h with rfl | rfl | rfl
  · decide
  · exact hdigit (by omega)
  · exact hdigit (by omega)

theorem isPlain_bounds {b : UInt8} (h : isPlain b = true) :
    b.toNat < 0x80 ∧ b ≠ 37 ∧ isCoded (Char.ofNat b.toNat) = true := by
  rw [isPlain, Bool.and_eq_true, decide_eq_true_eq] at h
  refine ⟨UInt8.lt_iff_toNat_lt.mp h.1, ?_, ?_⟩
  · rintro rfl
    exact absurd h.2 (by decide)
  · simp only [isCoded, h.2, Bool.true_or]

theorem isFormPlain_bounds {b : UInt8} (h : isFormPlain b = true) :
    b.toNat < 0x80 ∧ b ≠ 37 ∧ b ≠ 43 ∧ isCoded (Char.ofNat b.toNat) = true := by
  rw [isFormPlain, Bool.and_eq_true, decide_eq_true_eq] at h
  refine ⟨UInt8.lt_iff_toNat_lt.mp h.1, ?_, ?_, ?_⟩
  · rintro rfl
    exact absurd h.2 (by decide)
  · rintro rfl
    exact absurd h.2 (by decide)
  · have hcoded := h.2
    simp only [Bool.or_eq_true] at hcoded
    rcases hcoded with (((hc | hc) | hc) | hc) | hc <;>
      simp only [isCoded, hc, Bool.true_or, Bool.or_true]

/-- **A text that was percent coded is read as it was.** -/
theorem decode_encode (cs : List Char) : decode (encode cs) = .ok cs := by
  rw [decode, encode, unescape_flatMap, Utf8.decode_encode]
  intro b rest
  split
  · rename_i hplain
    obtain ⟨hlt, hne, -⟩ := isPlain_bounds hplain
    exact unescape_ascii hlt hne rest
  · exact unescape_escape b rest

theorem isCoded_of_mem_encode {c : Char} {cs : List Char} (h : c ∈ encode cs) :
    isCoded c = true := by
  obtain ⟨b, -, hc⟩ := List.mem_flatMap.mp h
  split at hc
  · rename_i hplain
    obtain ⟨-, -, hcoded⟩ := isPlain_bounds hplain
    exact List.mem_singleton.mp hc ▸ hcoded
  · exact isCoded_of_mem_escape hc

/-! ### Forms -/

/-- A `+` that was written for a space is read as one, and nothing else is. -/
theorem plus_of_mem_escape {b : UInt8} {c : Char} (h : c ∈ escape b) : c ≠ '+' := by
  have hlt : b.toNat < 256 := b.toNat_lt
  have hdigit {n : Nat} (hn : n < 16) : digit n ≠ '+' := fun hplus => by
    have halpha := (digit_spec hn).2.1
    rw [hplus] at halpha
    exact absurd halpha (by decide)
  simp only [escape, List.mem_cons, List.not_mem_nil, or_false] at h
  rcases h with rfl | rfl | rfl
  · decide
  · exact hdigit (by omega)
  · exact hdigit (by omega)

/-- **A key or value of a form is read as it was written.** -/
theorem decodeField_encodeField (cs : List Char) : decodeField (encodeField cs) = cs := by
  rw [decodeField, encodeField, List.map_flatMap, unescape_flatMap, decodeLossy_encode]
  intro b rest
  split
  · rename_i hplain
    obtain ⟨hlt, hne, hplus, -⟩ := isFormPlain_bounds hplain
    have hchar : Char.ofNat b.toNat ≠ '+' := fun h => hplus <| by
      have hnat := congrArg Char.toNat h
      rw [toNat_ofNat_of_lt hlt] at hnat
      exact UInt8.toNat.inj hnat
    rw [List.map_singleton, if_neg (by simpa using hchar)]
    exact unescape_ascii hlt hne rest
  · split
    · rename_i hspace
      rw [hspace]
      exact unescape_ascii (b := 32) (by decide) (by decide) rest
    · have hkept : (escape b).map (fun c => if c == '+' then ' ' else c) = escape b := by
        refine (List.map_congr_left fun c hc => ?_).trans (List.map_id _)
        rw [if_neg (by simpa using plus_of_mem_escape hc), id]
      rw [hkept]
      exact unescape_escape b rest

theorem isCoded_of_mem_encodeField {c : Char} {cs : List Char} (h : c ∈ encodeField cs) :
    isCoded c = true := by
  obtain ⟨b, -, hc⟩ := List.mem_flatMap.mp h
  split at hc
  · rename_i hplain
    obtain ⟨-, -, -, hcoded⟩ := isFormPlain_bounds hplain
    exact List.mem_singleton.mp hc ▸ hcoded
  · split at hc
    · exact List.mem_singleton.mp hc ▸ (by decide)
    · exact isCoded_of_mem_escape hc

theorem isCoded_of_mem_writeForm {c : Char} {pairs : List (List Char × List Char)}
    (h : c ∈ writeForm pairs) : isCoded c = true ∨ c = '=' ∨ c = '&' := by
  rcases mem_intercalate h with hjoiner | ⟨w, hw, hc⟩
  · exact .inr (.inr hjoiner)
  · obtain ⟨pair, -, rfl⟩ := List.mem_map.mp hw
    rcases List.mem_append.mp hc with hkey | hrest
    · exact .inl (isCoded_of_mem_encodeField hkey)
    · rcases List.mem_cons.mp hrest with hsign | hvalue
      · exact .inr (.inl hsign)
      · exact .inl (isCoded_of_mem_encodeField hvalue)

/-- **A form is read as the pairs that were written.** -/
theorem readForm_writeForm (pairs : List (List Char × List Char)) :
    readForm (writeForm pairs) = pairs := by
  let part (pair : List Char × List Char) : List Char :=
    encodeField pair.1 ++ '=' :: encodeField pair.2
  have hwrite : writeForm pairs = ['&'].intercalate (pairs.map part) := rfl
  have hjoiner : ∀ w ∈ pairs.map part, '&' ∉ w := by
    intro w hw
    obtain ⟨pair, -, rfl⟩ := List.mem_map.mp hw
    rw [List.mem_append, List.mem_cons, not_or, not_or]
    refine ⟨fun h => ?_, by decide, fun h => ?_⟩ <;>
      exact absurd (isCoded_of_mem_encodeField h) (by decide)
  have hcut (pair : List Char × List Char) :
      cutFirst '=' (part pair) = some (encodeField pair.1, encodeField pair.2) :=
    cutFirst_append fun c hc heq =>
      absurd (isCoded_of_mem_encodeField hc) (by rw [heq]; decide)
  rcases pairs with _ | ⟨pair, pairs⟩
  · rfl
  · rw [readForm, hwrite, pieces_intercalate hjoiner (by simp), List.filter_eq_self.mpr,
      List.map_map]
    · refine (List.map_congr_left fun pair _ => ?_).trans (List.map_id _)
      simp only [Function.comp_apply, hcut, decodeField_encodeField, id]
    · intro w hw
      obtain ⟨pair, -, rfl⟩ := List.mem_map.mp hw
      simp [part]

end SchemaMigration.Text.Percent
