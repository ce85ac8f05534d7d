import SchemaMigration.ClickHouse.Table
import SchemaMigration.Proofs.JsonDocuments
/-! # Integers in cells

A server writes an integer as a number or, quoted, as a string of its digits (`Digits`).  The type
of the column says which kind of integers a cell holds, and wrappers around this type say that it
may be null or that it holds an array.  What a cell may look like for a value is a relation between
the two (`Spells`), and decoding gives the value back, whichever way each of its integers is
written (`Spells.convert`). -/
namespace SchemaMigration.ClickHouse

open Json Number Text

/-! ### Types of integers -/

/-- The widths of integers, in bits. -/
inductive Width where
  | eight
  | sixteen
  | thirtyTwo
  | sixtyFour

def Width.text : Width → String
  | eight => "8"
  | sixteen => "16"
  | thirtyTwo => "32"
  | sixtyFour => "64"

/-- A type in a wrapper. -/
def wrapped (wrapper inner : String) : String := wrapper ++ "(" ++ inner ++ ")"

/-- A type of integers, in wrappers or not. -/
inductive IntegerColumn where
  | unsigned (width : Width)
  | signed (width : Width)
  | nullable (inner : IntegerColumn)
  | lowCardinality (inner : IntegerColumn)
  | array (inner : IntegerColumn)

/-- The name of a type. -/
def IntegerColumn.text : IntegerColumn → String
  | unsigned width => "UInt" ++ width.text
  | signed width => "Int" ++ width.text
  | nullable inner => wrapped "Nullable" inner.text
  | lowCardinality inner => wrapped "LowCardinality" inner.text
  | array inner => wrapped "Array" inner.text

/-! ### Unwrapping -/

theorem toList_wrapped (wrapper inner : String) :
    (wrapped wrapper inner).toList = wrapper.toList ++ '(' :: (inner.toList ++ [')']) := by
  rw [wrapped, String.toList_append, String.toList_append, String.toList_append, List.append_assoc,
    List.append_assoc]
  rfl

theorem unwrap?_wrapped (wrapper inner : String) :
    unwrap? wrapper.toList (wrapped wrapper inner).toList = some inner.toList := by
  have hopen : dropStart? ['('] ('(' :: (inner.toList ++ [')'])) = some (inner.toList ++ [')']) :=
    dropStart?_append ['('] _
  have hclose : dropEnd? [')'] (inner.toList ++ [')']) = some inner.toList := by
    rw [dropEnd?, List.reverse_append, dropStart?_append, Option.map_some, List.reverse_reverse]
  simp only [unwrap?, toList_wrapped, dropStart?_append, hopen, hclose, Option.bind_eq_bind,
    Option.bind_some]

/-- A type that begins with another word is in no such wrapper. -/
theorem unwrap?_of_apart {wrapper lead : String}
    (hlead : lead.toList.isPrefixOf wrapper.toList = false)
    (hwrapper : wrapper.toList.isPrefixOf lead.toList = false) (rest : String) :
    unwrap? wrapper.toList (lead ++ rest).toList = none := by
  rw [unwrap?, String.toList_append, dropStart?_of_apart hlead hwrapper]
  rfl

theorem transparent?_nullable (inner : String) :
    transparent? (wrapped "Nullable" inner).toList = some inner.toList := by
  rw [transparent?, unwrap?_wrapped]

theorem transparent?_lowCardinality (inner : String) :
    transparent? (wrapped "LowCardinality" inner).toList = some inner.toList := by
  have hnullable : unwrap? "Nullable".toList (wrapped "LowCardinality" inner).toList = none := by
    rw [wrapped, String.append_assoc, String.append_assoc]
    exact unwrap?_of_apart (by decide) (by decide) _
  rw [transparent?, hnullable]
  exact unwrap?_wrapped _ _

theorem transparent?_of_apart {lead : String}
    (hnullable : lead.toList.isPrefixOf "Nullable".toList = false ∧
      "Nullable".toList.isPrefixOf lead.toList = false)
    (hlow : lead.toList.isPrefixOf "LowCardinality".toList = false ∧
      "LowCardinality".toList.isPrefixOf lead.toList = false) (rest : String) :
    transparent? (lead ++ rest).toList = none := by
  rw [transparent?, unwrap?_of_apart hnullable.1 hnullable.2]
  exact unwrap?_of_apart hlow.1 hlow.2 rest

theorem convert_of_transparent {type inner : List Char} (h : transparent? type = some inner)
    (cell : Json) : convert type cell = convert inner cell := by
  rw [convert.eq_def]
  split
  · rename_i inner' hinner
    rw [h] at hinner
    cases hinner
    rfl
  · rename_i hnone
    rw [h] at hnone
    cases hnone

theorem convert_null {type : List Char} (h : transparent? type = none) :
    convert type .null = .null := by
  rw [convert.eq_def]
  split
  · rename_i hinner
    rw [h] at hinner
    cases hinner
  · rfl

theorem convert_array {type inner : List Char} (h : transparent? type = none)
    (harray : unwrap? "Array".toList type = some inner) (items : List Json) :
    convert type (.array items) = .tuple (items.map fun item => convert inner item) := by
  rw [convert.eq_def]
  split
  · rename_i hinner
    rw [h] at hinner
    cases hinner
  · split
    · contradiction
    · split
      · rename_i inner' hinner
        rw [harray] at hinner
        cases hinner
        rfl
      · rename_i hnone
        rw [harray] at hnone
        cases hnone

theorem convert_plain {type : List Char} {cell : Json} (h : transparent? type = none)
    (harray : unwrap? "Array".toList type = none) (hcell : cell ≠ .null) :
    convert type cell = plainCell type cell := by
  rw [convert.eq_def]
  split
  · rename_i hinner
    rw [h] at hinner
    cases hinner
  · split
    · exact absurd rfl hcell
    · split
      · rename_i hinner
        rw [harray] at hinner
        cases hinner
      · rfl

/-! ### Integers as they are written -/

/-- An integer is written as a number in its digits, or as a string of its digits. -/
inductive Digits (n : Int) : Form → Prop
  | number {numeral : Numeral} (h : numeral.Written (toString n).toList) :
      Digits n (.number numeral)
  | string {ps : List Json.Piece} (h : Json.Piece.text? ps = some (toString n)) :
      Digits n (.string ps)

mutual

/-- What a server may write for a value in a column of integers, with no more arrays around one
another than there is room for. -/
inductive Spells : Nat → IntegerColumn → Form → Value → Prop
  | null (room : Nat) (t : IntegerColumn) : Spells room t .null .null
  | unsigned (room : Nat) (width : Width) {n : UInt64} {form : Form} (h : Digits n.toNat form) :
      Spells room (.unsigned width) form (.uint n)
  | signed (room : Nat) (width : Width) {n : Int64} {form : Form} (h : Digits n.toInt form) :
      Spells room (.signed width) form (.int n)
  | nullable {room : Nat} {t : IntegerColumn} {form : Form} {v : Value} (h : Spells room t form v) :
      Spells room (.nullable t) form v
  | lowCardinality {room : Nat} {t : IntegerColumn} {form : Form} {v : Value}
      (h : Spells room t form v) : Spells room (.lowCardinality t) form v
  | array {room : Nat} {t : IntegerColumn} {forms : List Form} {vs : List Value}
      (h : SpellsAll room t forms vs) : Spells (room + 1) (.array t) (.array forms) (.tuple vs)

/-- The items of an array, one value for each of them. -/
inductive SpellsAll : Nat → IntegerColumn → List Form → List Value → Prop
  | nil (room : Nat) (t : IntegerColumn) : SpellsAll room t [] []
  | cons {room : Nat} {t : IntegerColumn} {form : Form} {forms : List Form} {v : Value}
      {vs : List Value} (h : Spells room t form v) (hs : SpellsAll room t forms vs) :
      SpellsAll room t (form :: forms) (v :: vs)

end

/-! ### Decoding -/

theorem unsignedCell?_digits {n : UInt64} {form : Form} (h : Digits n.toNat form) (room : Nat) :
    ∃ cell, ofForm? room form = some cell ∧ cell ≠ .null ∧ unsignedCell? cell = some n := by
  cases h with
  | number h =>
    rw [Numeral.eq_ofInt h]
    have hvalue := Numeral.value?_ofInt_natural n.toNat_lt
    rw [UInt64.ofNat_toNat] at hvalue
    refine ⟨.number (.natural n), ?_, nofun, rfl⟩
    rw [ofForm?, hvalue]
    rfl
  | string h =>
    refine ⟨.string (toString (n.toNat : Int)), ?_, nofun, ?_⟩
    · rw [ofForm?, h]
      rfl
    · have hread :
          IntegerType.u64.readText? (toString (n.toNat : Int)).toList = some (n.toNat : Int) :=
        IntegerType.readText?_eq_some_iff.mpr (IntegerType.writes_toString (.inr (by omega)))
      obtain ⟨k, hk, hnat⟩ := Option.map_eq_some_iff.mp hread
      obtain rfl : k = n.toNat := Int.ofNat.inj hnat
      rw [unsignedCell?, hk]
      simp only
      rw [if_pos n.toNat_lt, UInt64.ofNat_toNat]

theorem signedCell?_digits {n : Int64} {form : Form} (h : Digits n.toInt form) (room : Nat) :
    ∃ cell, ofForm? room form = some cell ∧ cell ≠ .null ∧ signedCell? cell = some n := by
  have hlow : -2 ^ 63 ≤ n.toInt := n.le_toInt
  have hhigh : n.toInt < 2 ^ 63 := n.toInt_lt
  cases h with
  | number h =>
    rw [Numeral.eq_ofInt h]
    by_cases hneg : n.toInt < 0
    · refine ⟨.number (.negative n), ?_, nofun, rfl⟩
      rw [ofForm?, Numeral.value?_ofInt_negative hneg hlow, Int64.ofInt_toInt]
      rfl
    · obtain ⟨k, hk⟩ := Int.eq_ofNat_of_zero_le (Int.not_lt.mp hneg)
      have hfits : k < 2 ^ 63 := by omega
      refine ⟨.number (.natural (UInt64.ofNat k)), ?_, nofun, ?_⟩
      · rw [ofForm?, hk, Numeral.value?_ofInt_natural (by omega)]
        rfl
      · have hnat : (UInt64.ofNat k).toNat = k :=
          UInt64.toNat_ofNat_of_lt' (show k < 2 ^ 64 by omega)
        have hn : Int64.ofNat k = n := by
          rw [← Int64.ofInt_eq_ofNat, ← hk, Int64.ofInt_toInt]
        rw [signedCell?, Numeric.toSigned?, hnat, Nat.pow_eq, if_pos hfits, hn]
  | string h =>
    refine ⟨.string (toString n.toInt), ?_, nofun, ?_⟩
    · rw [ofForm?, h]
      rfl
    · have hread : readSigned? (toString n.toInt).toList = some n.toInt :=
        IntegerType.readText?_eq_some_iff.mpr (IntegerType.writes_toString (t := .i64) (.inl rfl))
      rw [signedCell?, hread]
      simp only
      rw [if_pos ⟨hlow, hhigh⟩, Int64.ofInt_toInt]

theorem convert_unsigned {width : Width} {cell : Json} {n : UInt64} (hcell : cell ≠ .null)
    (h : unsignedCell? cell = some n) :
    convert (IntegerColumn.unsigned width).text.toList cell = .uint n := by
  have htype : "UInt".toList.isPrefixOf ("UInt" ++ width.text).toList = true := by
    rw [String.toList_append, List.isPrefixOf_iff_prefix]
    exact List.prefix_append _ _
  rw [IntegerColumn.text,
    convert_plain (transparent?_of_apart (by decide) (by decide) _)
      (unwrap?_of_apart (by decide) (by decide) _) hcell,
    plainCell, if_pos htype, h]
  rfl

theorem convert_signed {width : Width} {cell : Json} {n : Int64} (hcell : cell ≠ .null)
    (h : signedCell? cell = some n) :
    convert (IntegerColumn.signed width).text.toList cell = .int n := by
  have htype : "Int".toList.isPrefixOf ("Int" ++ width.text).toList = true := by
    rw [String.toList_append, List.isPrefixOf_iff_prefix]
    exact List.prefix_append _ _
  have hunsigned : "UInt".toList.isPrefixOf ("Int" ++ width.text).toList = false := by
    cases width <;> decide
  rw [IntegerColumn.text,
    convert_plain (transparent?_of_apart (by decide) (by decide) _)
      (unwrap?_of_apart (by decide) (by decide) _) hcell,
    plainCell, hunsigned, if_neg Bool.false_ne_true, if_pos htype, h]
  rfl

/-- A null is one in every column. -/
theorem convert_text_null (t : IntegerColumn) : convert t.text.toList .null = .null := by
  induction t with
  | unsigned _ | signed _ =>
    exact convert_null (transparent?_of_apart (by decide) (by decide) _)
  | nullable inner ih =>
    rw [IntegerColumn.text, convert_of_transparent (transparent?_nullable _), ih]
  | lowCardinality inner ih =>
    rw [IntegerColumn.text, convert_of_transparent (transparent?_lowCardinality _), ih]
  | array inner =>
    rw [IntegerColumn.text, wrapped, String.append_assoc, String.append_assoc]
    exact convert_null (transparent?_of_apart (by decide) (by decide) _)

theorem convert_text_array (t : IntegerColumn) (items : List Json) :
    convert t.array.text.toList (.array items) =
      .tuple (items.map fun item => convert t.text.toList item) := by
  have htransparent : transparent? (wrapped "Array" t.text).toList = none := by
    rw [wrapped, String.append_assoc, String.append_assoc]
    exact transparent?_of_apart (by decide) (by decide) _
  exact convert_array htransparent (unwrap?_wrapped _ _) items

mutual

/-- What is written for a value is read, and decoded as this value. -/
theorem Spells.convert {room : Nat} {t : IntegerColumn} {form : Form} {v : Value}
    (h : Spells room t form v) :
    ∃ cell, ofForm? room form = some cell ∧ ClickHouse.convert t.text.toList cell = v := by
  match h with
  | .null room t =>
    refine ⟨.null, ?_, convert_text_null t⟩
    rw [ofForm?]
  | .unsigned room width h =>
    obtain ⟨cell, hform, hcell, hn⟩ := unsignedCell?_digits h room
    exact ⟨cell, hform, convert_unsigned hcell hn⟩
  | .signed room width h =>
    obtain ⟨cell, hform, hcell, hn⟩ := signedCell?_digits h room
    exact ⟨cell, hform, convert_signed hcell hn⟩
  | .nullable h =>
    obtain ⟨cell, hform, hv⟩ := h.convert
    exact ⟨cell, hform, (convert_of_transparent (transparent?_nullable _) cell).trans hv⟩
  | .lowCardinality h =>
    obtain ⟨cell, hform, hv⟩ := h.convert
    exact ⟨cell, hform, (convert_of_transparent (transparent?_lowCardinality _) cell).trans hv⟩
  | .array h =>
    obtain ⟨cells, hforms, hvs⟩ := h.convert
    refine ⟨.array cells, ?_, ?_⟩
    · rw [ofForm?, hforms]
      rfl
    · rw [convert_text_array, hvs]

theorem SpellsAll.convert {room : Nat} {t : IntegerColumn} {forms : List Form} {vs : List Value}
    (h : SpellsAll room t forms vs) :
    ∃ cells, ofForms? room forms = some cells ∧
      cells.map (fun cell => ClickHouse.convert t.text.toList cell) = vs := by
  match h with
  | .nil room t =>
    refine ⟨[], ?_, rfl⟩
    rw [ofForms?]
  | .cons h hs =>
    obtain ⟨cell, hform, hv⟩ := h.convert
    obtain ⟨cells, hforms, hvs⟩ := hs.convert
    refine ⟨cell :: cells, ?_, ?_⟩
    · rw [ofForms?, hform, hforms]
      rfl
    · rw [List.map_cons, hv, hvs]

end

end SchemaMigration.ClickHouse
