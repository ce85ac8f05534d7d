import SchemaMigration.Proofs.TextCoding
/-! # The order of texts

Texts are compared character by character, and their bytes in UTF-8 byte by byte.  Both orders are
one, because the first byte in which two characters differ tells which is the greater
(`encodeChar_append_lt`). -/
namespace SchemaMigration.Text.Utf8

/-- Bytes are compared at the first place where they differ. -/
theorem cons_lt {a b : Nat} {as bs : List UInt8} (ha : a < 256) (hb : b < 256) (hle : a ≤ b)
    (h : a = b → as < bs) : a.toUInt8 :: as < b.toUInt8 :: bs := by
  rw [List.cons_lt_cons_iff, UInt8.lt_iff_toNat_lt, toNat_toUInt8 ha, toNat_toUInt8 hb]
  rcases Nat.lt_or_eq_of_le hle with hlt | heq
  · exact .inl hlt
  · exact .inr ⟨congrArg Nat.toUInt8 heq, h heq⟩

/-- The bytes of a character tell it from a greater one, whatever follows them. -/
theorem encodeChar_append_lt {c d : Char} (h : c < d) (as bs : List UInt8) :
    encodeChar c ++ as < encodeChar d ++ bs := by
  have hlt : c.toNat < d.toNat := h
  have hvalid : d.toNat < 0xD800 ∨ 0xDFFF < d.toNat ∧ d.toNat < 0x110000 := d.valid
  simp only [encodeChar]
  -- the first bytes of different lengths are apart; of one length, the bytes are the digits of the
  -- characters to the base 64, which are not all equal
  split_ifs <;> simp only [List.cons_append, List.nil_append]
  all_goals
    repeat refine cons_lt (by omega) (by omega) (by omega) fun heq => ?_
    omega

theorem encode_cons_ne_nil (c : Char) (cs : List Char) : encode (c :: cs) ≠ [] := by
  rw [encode, List.flatMap_cons]
  rcases encodeChar_cases c with ⟨b, hb, -⟩ | ⟨b, bs, -, hb, -⟩
  all_goals
    rw [hb]
    exact List.cons_ne_nil _ _

/-- The bytes of texts are in the order of the texts. -/
theorem encode_lt {cs ds : List Char} (h : cs < ds) : encode cs < encode ds := by
  induction cs generalizing ds with
  | nil =>
    cases ds with
    | nil => cases h
    | cons d ds =>
      obtain ⟨b, bs, hb⟩ := List.exists_cons_of_ne_nil (encode_cons_ne_nil d ds)
      rw [hb]
      exact List.nil_lt_cons b bs
  | cons c cs ih =>
    cases ds with
    | nil => cases h
    | cons d ds =>
      rw [encode, encode, List.flatMap_cons, List.flatMap_cons]
      rcases List.cons_lt_cons_iff.mp h with hlt | ⟨rfl, hrest⟩
      · exact encodeChar_append_lt hlt _ _
      · exact List.append_left_lt (ih hrest)

theorem encodeString_lt {s t : String} (h : s < t) : encodeString s < encodeString t :=
  encode_lt (String.lt_iff.mp h)

end SchemaMigration.Text.Utf8
