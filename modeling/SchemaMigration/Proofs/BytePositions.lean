import SchemaMigration.Proofs.TextCoding
import SchemaMigration.Text.Slice
/-! # Positions between characters

A position in the bytes of a text lies between two of its characters when the bytes behind it are
those of a text (`Stands`).  The text can be cut there, and between two such positions the bytes of
the characters between them are cut out (`Stands.slice?`).

A character below `0x80` is one byte, and all bytes of other characters are `0x80` or more.  So a
fragment of characters below `0x80` occurs among the bytes where it occurs in the text
(`find?_encode_cases`). -/
namespace SchemaMigration.Text.Utf8

variable {bytes : List UInt8} {i j : Nat} {cs ds : List Char} {a c : Char}

/-! ### The bytes of a character -/

/-- The byte of a character below `0x80`. -/
def byte (c : Char) : UInt8 := c.toNat.toUInt8

theorem toNat_byte (h : c.toNat < 0x80) : (byte c).toNat = c.toNat := toNat_toUInt8 (by omega)

theorem encode_cons_byte (h : c.toNat < 0x80) (cs : List Char) :
    encode (c :: cs) = byte c :: encode cs := encode_cons_ascii h cs

theorem encode_cons_of_bytes {b : UInt8} {high : List UInt8} (h : encodeChar c = b :: high)
    (cs : List Char) : encode (c :: cs) = b :: (high ++ encode cs) := by
  rw [encode, List.flatMap_cons, h]
  rfl

theorem byte_lt (h : c.toNat < 0x80) : byte c < 0x80 := by
  rw [UInt8.lt_iff_toNat_lt, toNat_byte h]
  exact h

theorem ne_of_high {b d : UInt8} (hb : b < 0x80) (hd : 0x80 ≤ d) : d ≠ b := by
  rintro rfl
  exact absurd hb (UInt8.not_lt.mpr hd)

theorem byte_inj (ha : a.toNat < 0x80) (hc : c.toNat < 0x80) : byte c = byte a ↔ c = a := by
  refine ⟨fun h => Char.toNat_inj.mp ?_, congrArg byte⟩
  rw [← toNat_byte ha, ← toNat_byte hc, h]

theorem isContinuation_iff {b : UInt8} : isContinuation b = true ↔ 0x80 ≤ b ∧ b < 0xC0 := by
  rw [isContinuation, Bool.and_eq_true, decide_eq_true_eq, decide_eq_true_eq]

theorem le_of_isContinuation {high : List UInt8} (h : ∀ d ∈ high, isContinuation d = true) :
    ∀ d ∈ high, 0x80 ≤ d := fun d hd => (isContinuation_iff.mp (h d hd)).1

/-- The first byte of any other character begins it, and the others go on with it. -/
theorem encodeChar_high (h : ¬c.toNat < 0x80) :
    ∃ b high, encodeChar c = b :: high ∧ 0xC0 ≤ b ∧ ∀ d ∈ high, isContinuation d = true := by
  have hvalid : c.toNat < 0xD800 ∨ 0xDFFF < c.toNat ∧ c.toNat < 0x110000 := c.valid
  have hsix (n : Nat) : isContinuation (0x80 + n % 64).toUInt8 = true := by
    rw [isContinuation_iff, UInt8.le_iff_toNat_le, UInt8.lt_iff_toNat_lt,
      toNat_toUInt8 (by omega)]
    exact ⟨Nat.le_add_right _ _, Nat.add_lt_add_left (Nat.mod_lt n (by decide)) 0x80⟩
  have hfirst {n m : Nat} (hn : 0xC0 ≤ n) (hm : n + m < 256) :
      (0xC0 : UInt8) ≤ (n + m).toUInt8 := by
    rw [UInt8.le_iff_toNat_le, toNat_toUInt8 hm]
    exact Nat.le_add_right_of_le hn
  have hnone : ∀ d ∈ ([] : List UInt8), isContinuation d = true := nofun
  simp only [encodeChar, if_neg h]
  split
  · refine ⟨_, _, rfl, hfirst (by decide) (by omega), ?_⟩
    simpa only [List.forall_mem_cons, hsix, true_and]
  · split
    · refine ⟨_, _, rfl, hfirst (by decide) (by omega), ?_⟩
      simpa only [List.forall_mem_cons, hsix, true_and]
    · refine ⟨_, _, rfl, hfirst (by decide) (by omega), ?_⟩
      simpa only [List.forall_mem_cons, hsix, true_and]

theorem le_of_mem_encodeChar (h : ¬c.toNat < 0x80) : ∀ d ∈ encodeChar c, 0x80 ≤ d := by
  obtain ⟨b, high, hb, hfirst, hhigh⟩ := encodeChar_high h
  rw [hb]
  exact List.forall_mem_cons.mpr
    ⟨UInt8.le_trans (by decide) hfirst, le_of_isContinuation hhigh⟩

/-- Every character is begun by its first byte and by no other. -/
theorem encodeChar_eq_cons (c : Char) :
    ∃ b high, encodeChar c = b :: high ∧ isContinuation b = false ∧
      ∀ d ∈ high, isContinuation d = true := by
  by_cases hc : c.toNat < 0x80
  · have hfirst : ¬0x80 ≤ byte c := UInt8.not_le.mpr (byte_lt hc)
    exact ⟨byte c, [], encodeChar_ascii hc, by simp [isContinuation, hfirst], nofun⟩
  · obtain ⟨b, high, hb, hle, hhigh⟩ := encodeChar_high hc
    have hfirst : ¬b < 0xC0 := UInt8.not_lt.mpr hle
    exact ⟨b, high, hb, by simp [isContinuation, hfirst], hhigh⟩

theorem length_encode_pos (h : cs ≠ []) : 0 < (encode cs).length := by
  obtain ⟨c, cs, rfl⟩ := List.exists_cons_of_ne_nil h
  obtain ⟨b, high, hb, -⟩ := encodeChar_eq_cons c
  rw [encode_cons_of_bytes hb]
  exact Nat.succ_pos _

/-- A text begins with the byte of a character just when it begins with the character. -/
theorem head?_encode_eq_some_iff (ha : a.toNat < 0x80) :
    (encode cs).head? = some (byte a) ↔ cs.head? = some a := by
  cases cs with
  | nil => exact ⟨nofun, nofun⟩
  | cons c cs =>
    by_cases hc : c.toNat < 0x80
    · rw [encode_cons_byte hc, List.head?_cons, List.head?_cons, Option.some_inj, Option.some_inj]
      exact byte_inj ha hc
    · obtain ⟨b, high, hb, hle, -⟩ := encodeChar_high hc
      rw [encode_cons_of_bytes hb, List.head?_cons, List.head?_cons, Option.some_inj,
        Option.some_inj]
      refine iff_of_false (ne_of_high (byte_lt ha) (UInt8.le_trans (by decide) hle)) ?_
      rintro rfl
      exact hc ha

/-! ### Occurrences of a fragment -/

/-- A fragment of characters below `0x80` stands at the start of the bytes of a text just when it
stands at the start of the text. -/
theorem encode_prefix_iff {part : List Char} (h : ∀ a ∈ part, a.toNat < 0x80) :
    encode part <+: encode cs ↔ part <+: cs := by
  induction part generalizing cs with
  | nil => exact iff_of_true (List.nil_prefix) (List.nil_prefix)
  | cons a part ih =>
    obtain ⟨ha, hpart⟩ := List.forall_mem_cons.mp h
    rw [encode_cons_byte ha]
    by_cases hhead : cs.head? = some a
    · obtain ⟨rest, rfl⟩ := List.head?_eq_some_iff.mp hhead
      rw [encode_cons_byte ha, List.cons_prefix_cons, List.cons_prefix_cons,
        and_iff_right rfl, and_iff_right rfl, ih hpart]
    · refine iff_of_false (fun hp => hhead ?_) (fun hp => hhead ?_)
      · obtain ⟨rest, hrest⟩ := hp
        exact (head?_encode_eq_some_iff ha).mp (by rw [← hrest]; rfl)
      · obtain ⟨rest, hrest⟩ := hp
        rw [← hrest]
        rfl

/-- A fragment that begins with a byte below `0x80` does not begin in bytes above. -/
theorem find?_high {b : UInt8} {part high rest : List UInt8} (hb : b < 0x80)
    (hhigh : ∀ d ∈ high, 0x80 ≤ d) :
    find? (b :: part) (high ++ rest) = (find? (b :: part) rest).map (· + high.length) := by
  induction high with
  | nil => simp
  | cons d high ih =>
    obtain ⟨hd, hhigh⟩ := List.forall_mem_cons.mp hhigh
    have hnot : ¬(b :: part).isPrefixOf (d :: (high ++ rest)) := by
      rw [List.isPrefixOf_iff_prefix, List.cons_prefix_cons]
      exact fun heq => ne_of_high hb hd heq.1.symm
    rw [List.cons_append, find?, if_neg hnot, ih hhigh, Option.map_map]
    rfl

/-- A fragment of characters below `0x80` is found among the bytes of a text where the text is cut
at it. -/
theorem find?_encode_cases {part : List Char} (h : ∀ d ∈ a :: part, d.toNat < 0x80)
    (seen cs : List Char) :
    (cutAtFrom (a :: part) seen cs = none ∧ find? (encode (a :: part)) (encode cs) = none) ∨
      ∃ before after n, cutAtFrom (a :: part) seen cs = some (before, after) ∧
        find? (encode (a :: part)) (encode cs) = some n ∧
        n + (encode (a :: part)).length + (encode after).length = (encode cs).length := by
  obtain ⟨ha, -⟩ := List.forall_mem_cons.mp h
  induction cs generalizing seen with
  | nil =>
    refine .inl ⟨rfl, ?_⟩
    rw [encode_cons_byte ha]
    rfl
  | cons c cs ih =>
    obtain ⟨b, high, hb, -, hhigh⟩ := encodeChar_eq_cons c
    have hbytes := encode_cons_of_bytes hb cs
    rw [cutAtFrom, hbytes, find?, ← hbytes]
    by_cases hfound : a :: part <+: c :: cs
    · obtain ⟨after, hafter⟩ := hfound
      refine .inr ⟨seen.reverse, after, 0, ?_, ?_, ?_⟩
      · rw [if_pos (List.isPrefixOf_iff_prefix.mpr ⟨after, hafter⟩), ← hafter, List.drop_left]
      · rw [if_pos (List.isPrefixOf_iff_prefix.mpr ((encode_prefix_iff h).mpr ⟨after, hafter⟩))]
      · rw [← hafter, encode_append, List.length_append, Nat.zero_add]
    · have hskip : (find? (encode (a :: part)) (high ++ encode cs)).map (· + 1) =
          (find? (encode (a :: part)) (encode cs)).map (· + (high.length + 1)) := by
        rw [encode_cons_byte ha, find?_high (byte_lt ha) (le_of_isContinuation hhigh),
          Option.map_map]
        rfl
      rw [if_neg (mt List.isPrefixOf_iff_prefix.mp hfound),
        if_neg (mt List.isPrefixOf_iff_prefix.mp (mt (encode_prefix_iff h).mp hfound)), hskip]
      rcases ih (c :: seen) with ⟨hcut, hnone⟩ | ⟨before, after, n, hcut, hsome, hlength⟩
      · exact .inl ⟨hcut, by rw [hnone]; rfl⟩
      · refine .inr ⟨before, after, n + (high.length + 1), hcut, by rw [hsome]; rfl, ?_⟩
        rw [hbytes, List.length_cons, List.length_append]
        omega

/-! ### Positions -/

/-- The byte at a position and those behind it. -/
theorem drop_eq_cons {b : UInt8} {behind : List UInt8} (h : bytes.drop i = b :: behind) :
    bytes[i]? = some b ∧ bytes.drop (i + 1) = behind := by
  rw [← List.head?_drop, ← List.drop_drop, h]
  exact ⟨rfl, rfl⟩

/-- What every byte of `0x80` or more leaves as it is, a row of them leaves as it is. -/
theorem eq_across {α : Type} {f : Nat → α} {high more : List UInt8}
    (hpass : ∀ i d, bytes[i]? = some d → 0x80 ≤ d → f i = f (i + 1))
    (hhigh : ∀ d ∈ high, 0x80 ≤ d) (h : bytes.drop i = high ++ more) :
    f i = f (i + high.length) := by
  induction high generalizing i with
  | nil => rfl
  | cons d high ih =>
    obtain ⟨hd, hhigh⟩ := List.forall_mem_cons.mp hhigh
    obtain ⟨hbyte, hnext⟩ := drop_eq_cons h
    rw [hpass i d hbyte hd, ih hhigh hnext, List.length_cons, Nat.add_assoc, Nat.add_comm 1]

/-- The text `cs` stands behind the position. -/
structure Stands (bytes : List UInt8) (i : Nat) (cs : List Char) : Prop where
  behind : bytes.drop i = encode cs
  within : i ≤ bytes.length

namespace Stands

theorem start (cs : List Char) : Stands (encode cs) 0 cs := ⟨rfl, Nat.zero_le _⟩

theorem finish (bytes : List UInt8) : Stands bytes bytes.length [] :=
  ⟨List.drop_length, Nat.le_refl _⟩

theorem length (h : Stands bytes i cs) : i + (encode cs).length = bytes.length := by
  rw [← h.behind, List.length_drop]
  exact Nat.add_sub_of_le h.within

/-- A part of the text that stands behind a position stands behind another. -/
theorem move (h : Stands bytes i (cs ++ ds)) (hj : j + (encode ds).length = bytes.length) :
    Stands bytes j ds := by
  have hlength := h.length
  rw [encode_append, List.length_append] at hlength
  have hshift : j = i + (encode cs).length := by omega
  refine ⟨?_, by omega⟩
  rw [hshift, ← List.drop_drop, h.behind, encode_append, List.drop_left]

theorem move_append (h : Stands bytes i (cs ++ ds)) : Stands bytes (i + (encode cs).length) ds := by
  refine h.move ?_
  rw [← h.length, encode_append, List.length_append, Nat.add_assoc]

theorem getElem? (h : Stands bytes i cs) : bytes[i]? = (encode cs).head? := by
  rw [← h.behind, List.head?_drop]

/-- What stands behind a character: its last byte is passed. -/
theorem tail (h : Stands bytes i (c :: cs)) : Stands bytes (i + (encodeChar c).length) cs := by
  have hmove : Stands bytes (i + (encode [c]).length) cs := move_append h
  rwa [encode, List.flatMap_singleton] at hmove

theorem step (h : Stands bytes i (c :: cs)) (hc : c.toNat < 0x80) :
    bytes[i]? = some (byte c) ∧ Stands bytes (i + 1) cs := by
  have htail := h.tail
  rw [encodeChar_ascii hc] at htail
  exact ⟨by rw [h.getElem?, encode_cons_byte hc]; rfl, htail⟩

/-- The text can be cut there. -/
theorem isBoundary (h : Stands bytes i cs) : isBoundary bytes i = true := by
  cases cs with
  | nil =>
    have hend : i = bytes.length := h.length
    simp [Utf8.isBoundary, hend]
  | cons c cs =>
    obtain ⟨b, high, hb, hfirst, -⟩ := encodeChar_eq_cons c
    have hbyte : bytes[i]? = some b := by
      rw [h.getElem?, encode_cons_of_bytes hb, List.head?_cons]
    simp [Utf8.isBoundary, hbyte, hfirst]

/-- Between two positions stand the characters that are not behind the second one. -/
theorem slice? (h : Stands bytes i (cs ++ ds)) (hj : Stands bytes j ds) :
    slice? bytes i j = some (encode cs) := by
  have hi := h.length
  have hlength := hj.length
  rw [encode_append, List.length_append] at hi
  have hwidth : j - i = (encode cs).length := by omega
  rw [Utf8.slice?, if_pos ⟨by omega, h.isBoundary, hj.isBoundary⟩, List.drop_take, h.behind,
    encode_append, hwidth, List.take_left]

theorem slice?_rest (h : Stands bytes i cs) :
    Utf8.slice? bytes i bytes.length = some (encode cs) := by
  rw [← List.append_nil cs] at h
  exact h.slice? (finish bytes)

end Stands

/-- A position in a text lies between two characters or in front of a byte that goes on with
one. -/
theorem position_cases (h : i ≤ (encode cs).length) :
    (∃ front back, cs = front ++ back ∧ i = (encode front).length) ∨
      ∃ d, (encode cs)[i]? = some d ∧ isContinuation d = true := by
  induction cs generalizing i with
  | nil => exact .inl ⟨[], [], rfl, Nat.le_zero.mp h⟩
  | cons c cs ih =>
    have hsplit : encode (c :: cs) = encodeChar c ++ encode cs := List.flatMap_cons
    rw [hsplit] at h ⊢
    rw [List.length_append] at h
    by_cases hi : i < (encodeChar c).length
    · obtain ⟨b, high, hb, -, hhigh⟩ := encodeChar_eq_cons c
      rw [List.getElem?_append_left hi]
      rw [hb, List.length_cons] at hi
      cases i with
      | zero => exact .inl ⟨[], c :: cs, rfl, rfl⟩
      | succ k =>
        have hk : k < high.length := by omega
        rw [hb, List.getElem?_cons_succ, List.getElem?_eq_getElem hk]
        exact .inr ⟨high[k], rfl, hhigh _ (List.getElem_mem hk)⟩
    · rw [List.getElem?_append_right (by omega)]
      have hrest : i - (encodeChar c).length ≤ (encode cs).length := by omega
      refine (ih hrest).imp_left ?_
      rintro ⟨front, back, rfl, hfront⟩
      refine ⟨c :: front, back, rfl, ?_⟩
      rw [encode, List.flatMap_cons, List.length_append]
      change i = (encodeChar c).length + (encode front).length
      omega

/-- **A text can be cut at its ends and between any two of its characters, and nowhere else.** -/
theorem isBoundary_iff :
    isBoundary (encode cs) i = true ↔
      ∃ front back, cs = front ++ back ∧ i = (encode front).length := by
  constructor
  · intro h
    simp only [isBoundary, Bool.or_eq_true, beq_iff_eq, Option.any_eq_true, Bool.not_eq_true',
      or_assoc] at h
    rcases h with rfl | rfl | ⟨b, hb, hfirst⟩
    · exact ⟨[], cs, rfl, rfl⟩
    · exact ⟨cs, [], (List.append_nil cs).symm, rfl⟩
    · obtain ⟨hi, -⟩ := List.getElem?_eq_some_iff.mp hb
      rcases position_cases hi.le with hbetween | ⟨d, hd, hcontinues⟩
      · exact hbetween
      · rw [Option.some_inj.mp (hb.symm.trans hd), hcontinues] at hfirst
        cases hfirst
  · rintro ⟨front, back, rfl, rfl⟩
    have hstands := (Stands.start (front ++ back)).move_append
    rw [Nat.zero_add] at hstands
    exact hstands.isBoundary

end SchemaMigration.Text.Utf8
