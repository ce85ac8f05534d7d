import SchemaMigration.Proofs.PacketFraming
/-! # Values and requests are read as they were written

A value is written in its shortest form, and reading it takes as many levels as it is deep
(`Msgpack.levels`).  Whatever comes behind it, it is read as it was written (`Msgpack.take_write`),
unless it is one that the format has no form for: a string that is no text, or an integer from zero
on that passes for one below zero (`Msgpack.isRegular`).  The proof goes by the levels: the marker
of a value and its length are read first, and what the value contains is read with two levels less.
With fewer levels it is not read at all (`Msgpack.levels_le_of_take`).

So a request is read as it was written too.  Its packet is taken whole from a stream, and its
payload, which holds the header and the body with nothing between them, gives both back just if the
body is no deeper than reading allows (`Tarantool.encodeRequest_read`). -/
namespace SchemaMigration.Msgpack

/-! ### Values that are read back -/

mutual

/-- The levels that it takes to read a value. -/
def levels : Msgpack → Nat
  | .nil | .bool _ | .natural _ | .negative _ | .single _ | .double _ => 1
  | .binary _ => 2
  | .string _ | .extension _ _ => 3
  | .array items => levelsOfItems items + 2
  | .map entries => levelsOfEntries entries + 2

/-- The most levels that one of the items takes. -/
def levelsOfItems : List Msgpack → Nat
  | [] => 0
  | item :: items => max item.levels (levelsOfItems items)

/-- The most levels that a key or a value takes. -/
def levelsOfEntries : List (Msgpack × Msgpack) → Nat
  | [] => 0
  | (key, value) :: entries => max (max key.levels value.levels) (levelsOfEntries entries)

end

mutual

/-- Whether every string in a value is a text, and every integer below zero is below zero. -/
def isRegular : Msgpack → Bool
  | .negative n => n < 0
  | .string bytes => (Text.Utf8.decode bytes).isOk
  | .array items => areRegular items
  | .map entries => areRegularEntries entries
  | .nil | .bool _ | .natural _ | .single _ | .double _ | .binary _ | .extension _ _ => true

def areRegular : List Msgpack → Bool
  | [] => true
  | item :: items => item.isRegular && areRegular items

def areRegularEntries : List (Msgpack × Msgpack) → Bool
  | [] => true
  | (key, value) :: entries => key.isRegular && value.isRegular && areRegularEntries entries

end

/-- A regular value that fits into a number of levels and into 32 bits of length. -/
structure Fits (depth : Nat) (v : Msgpack) : Prop where
  regular : v.isRegular = true
  levels : v.levels ≤ depth
  size : v.write.length < 2 ^ 32

theorem Fits.of_items {depth : Nat} {items : List Msgpack} (hregular : areRegular items = true)
    (hlevels : levelsOfItems items ≤ depth) (hsize : (writeItems items).length < 2 ^ 32) :
    ∀ v ∈ items, v.Fits depth := by
  induction items with
  | nil => exact nofun
  | cons item items ih =>
    rw [areRegular, Bool.and_eq_true] at hregular
    rw [levelsOfItems] at hlevels
    rw [writeItems, List.length_append] at hsize
    refine List.forall_mem_cons.mpr ⟨⟨hregular.1, ?_, ?_⟩, ih hregular.2 ?_ ?_⟩ <;> omega

theorem Fits.of_entries {depth : Nat} {entries : List (Msgpack × Msgpack)}
    (hregular : areRegularEntries entries = true) (hlevels : levelsOfEntries entries ≤ depth)
    (hsize : (writeEntries entries).length < 2 ^ 32) :
    ∀ e ∈ entries, e.1.Fits depth ∧ e.2.Fits depth := by
  induction entries with
  | nil => exact nofun
  | cons e entries ih =>
    obtain ⟨key, value⟩ := e
    rw [areRegularEntries, Bool.and_eq_true, Bool.and_eq_true] at hregular
    rw [levelsOfEntries] at hlevels
    rw [writeEntries, List.length_append, List.length_append] at hsize
    have hkey : key.Fits depth := ⟨hregular.1.1, by omega, by omega⟩
    have hvalue : value.Fits depth := ⟨hregular.1.2, by omega, by omega⟩
    exact List.forall_mem_cons.mpr ⟨⟨hkey, hvalue⟩, ih hregular.2 (by omega) (by omega)⟩

/-! ### Every value takes a byte -/

theorem writeLength_ne_nil {short base : Nat} {m8 : Option UInt8} {m16 m32 : UInt8} {n : Nat} :
    writeLength short base m8 m16 m32 n ≠ [] := by
  unfold writeLength
  repeat' split
  all_goals exact List.cons_ne_nil _ _

theorem writeNatural_ne_nil (n : Nat) : writeNatural n ≠ [] := by
  unfold writeNatural
  repeat' split
  all_goals exact List.cons_ne_nil _ _

theorem writeNegative_ne_nil (n : Int) : writeNegative n ≠ [] := by
  unfold writeNegative
  repeat' split
  all_goals exact List.cons_ne_nil _ _

theorem write_ne_nil (v : Msgpack) : v.write ≠ [] := by
  have hlength {short base : Nat} {m8 : Option UInt8} {m16 m32 : UInt8} {n : Nat}
      (bs : List UInt8) : writeLength short base m8 m16 m32 n ++ bs ≠ [] := fun h =>
    writeLength_ne_nil (List.append_eq_nil_iff.mp h).1
  cases v with
  | nil => exact List.cons_ne_nil _ _
  | bool b => exact List.cons_ne_nil _ _
  | natural n => exact writeNatural_ne_nil _
  | negative n =>
    rw [write]
    split
    · exact writeNegative_ne_nil _
    · exact writeNatural_ne_nil _
  | single x => exact List.cons_ne_nil _ _
  | double x => exact List.cons_ne_nil _ _
  | string bytes =>
    rw [write, writeString]
    split
    · exact hlength bytes
    · exact hlength bytes
  | binary bytes => exact hlength bytes
  | array items => exact hlength _
  | map entries => exact hlength _
  | extension kind bytes => exact List.append_ne_nil_of_right_ne_nil _ (List.cons_ne_nil _ _)

theorem length_write_pos (v : Msgpack) : 0 < v.write.length :=
  List.length_pos_iff.mpr (write_ne_nil v)

theorem length_le_writeItems (items : List Msgpack) :
    items.length ≤ (writeItems items).length := by
  induction items with
  | nil => exact Nat.zero_le _
  | cons item items ih =>
    have hitem := length_write_pos item
    rw [writeItems, List.length_append, List.length_cons]
    omega

theorem length_le_writeEntries (entries : List (Msgpack × Msgpack)) :
    entries.length ≤ (writeEntries entries).length := by
  induction entries with
  | nil => exact Nat.zero_le _
  | cons e entries ih =>
    obtain ⟨key, value⟩ := e
    have hkey := length_write_pos key
    rw [writeEntries, List.length_append, List.length_append, List.length_cons]
    omega

/-! ### Lengths -/

/-- The head of a value tells its length: in a marker of its own, if there is one for this length,
or in a number behind the marker. -/
def Tells (own : Nat → Option Shape) (wide : Nat → Shape) (n : Nat) (head : List UInt8) : Prop :=
  (∃ marker, head = [marker] ∧ own n = some (shape marker)) ∨
    ∃ marker width, head = marker :: bigEndian width n ∧ n < 256 ^ width ∧
      shape marker = wide width

/-- A length that is written is told, if the markers mean what they should. -/
theorem tells_writeLength {own : Nat → Option Shape} {wide : Nat → Shape} {short base : Nat}
    {m8 : Option UInt8} {m16 m32 : UInt8} {n : Nat} (hn : n < 2 ^ 32)
    (hshort : n < short → own n = some (shape (base + n).toUInt8))
    (h8 : ∀ m ∈ m8, shape m = wide 1) (h16 : shape m16 = wide 2) (h32 : shape m32 = wide 4) :
    Tells own wide n (writeLength short base m8 m16 m32 n) := by
  unfold writeLength
  by_cases hsmall : n < short
  · rw [if_pos hsmall]
    exact .inl ⟨_, rfl, hshort hsmall⟩
  rw [if_neg hsmall]
  have hwide : Tells own wide n
      (if n < 65536 then m16 :: bigEndian 2 n else m32 :: bigEndian 4 n) := by
    split
    · exact .inr ⟨m16, 2, rfl, by omega, h16⟩
    · exact .inr ⟨m32, 4, rfl, by omega, h32⟩
  cases m8 with
  | none => exact hwide
  | some m =>
    show Tells own wide n (if n < 256 then _ else _)
    split
    · exact .inr ⟨m, 1, rfl, by omega, h8 m rfl⟩
    · exact hwide

/-- A value whose head tells a length is read by what follows such a length. -/
theorem take_of_tells {own : Nat → Option Shape} {wide : Nat → Shape} {n depth : Nat}
    {head : List UInt8} (follow : Nat → List UInt8 → Option (Msgpack × List UInt8))
    (h : Tells own wide n head)
    (hown : ∀ marker bs, own n = some (shape marker) →
      take (depth + 2) (marker :: bs) = follow n bs)
    (hwide : ∀ marker width bs, shape marker = wide width →
      take (depth + 2) (marker :: bs) = (takeNumber width bs).bind fun p => follow p.1 p.2)
    (bs : List UInt8) : take (depth + 2) (head ++ bs) = follow n bs := by
  rcases h with ⟨marker, rfl, hshape⟩ | ⟨marker, width, rfl, hn, hshape⟩
  · exact hown marker bs hshape
  · rw [List.cons_append, hwide marker width _ hshape, takeNumber_bigEndian hn]
    rfl

/-! ### Values that contain bytes -/

theorem takePayload_append {depth : Nat} (hdepth : depth ≠ 0) (make : List UInt8 → Msgpack)
    (bytes rest : List UInt8) :
    takePayload depth make bytes.length (bytes ++ rest) = some (make bytes, rest) := by
  rw [takePayload, if_neg hdepth, takeBytes_some_iff.mpr ⟨rfl, rfl⟩]
  rfl

theorem take_binary {bytes : List UInt8} (h : bytes.length < 2 ^ 32) (depth : Nat)
    (rest : List UInt8) :
    take (depth + 2) ((binary bytes).write ++ rest) = some (.binary bytes, rest) := by
  have htells : Tells (fun _ => none) .binaryOf bytes.length
      (writeLength 0 0 (some 0xC4) 0xC5 0xC6 bytes.length) := by
    refine tells_writeLength h (fun hn => absurd hn (Nat.not_lt_zero _)) ?_ rfl rfl
    rintro _ ⟨⟩
    rfl
  rw [write, writeBinary, List.append_assoc,
    take_of_tells (takePayload (depth + 1) .binary) htells]
  · exact takePayload_append (Nat.succ_ne_zero _) _ _ _
  · rintro marker bs ⟨⟩
  · intro marker width bs hshape
    simp only [take, hshape, takeLeaf]

theorem write_string {bytes : List UInt8} (htext : (Text.Utf8.decode bytes).isOk) :
    (string bytes).write = writeLength 32 0xA0 (some 0xD9) 0xDA 0xDB bytes.length ++ bytes := by
  rw [write, writeString]
  split
  · rfl
  · rename_i heq
    rw [heq] at htext
    cases htext

theorem take_string {bytes : List UInt8} (htext : (Text.Utf8.decode bytes).isOk)
    (h : bytes.length < 2 ^ 32) (depth : Nat) (rest : List UInt8) :
    take (depth + 3) ((string bytes).write ++ rest) = some (.string bytes, rest) := by
  have htells : Tells (fun n => some (.string n)) .stringOf bytes.length
      (writeLength 32 0xA0 (some 0xD9) 0xDA 0xDB bytes.length) := by
    refine tells_writeLength h (fun hn => congrArg some ?_) ?_ rfl rfl
    · rw [shape, UInt8.toNat_ofNat_of_lt' (show _ < 256 by omega), if_neg (by omega),
        if_neg (by omega), if_neg (by omega), if_pos (by omega), Nat.add_sub_cancel_left]
    · rintro _ ⟨⟩
      rfl
  rw [write_string htext, List.append_assoc, take_of_tells (takeText (depth + 2)) htells]
  · exact takePayload_append (Nat.succ_ne_zero _) _ _ _
  · intro marker bs hshape
    simp only [take, ← Option.some.inj hshape, takeLeaf]
  · intro marker width bs hshape
    simp only [take, hshape, takeLeaf]

/-- The marker of an extension tells its length. -/
theorem tells_extension {n : Nat} (h : n < 2 ^ 32) :
    Tells (fun n => some (.extension n)) .extensionOf n
      (if n = 1 then [0xD4] else if n = 2 then [0xD5] else if n = 4 then [0xD6]
        else if n = 8 then [0xD7] else if n = 16 then [0xD8]
        else writeLength 0 0 (some 0xC7) 0xC8 0xC9 n) := by
  have hlength : Tells (fun n => some (.extension n)) .extensionOf n
      (writeLength 0 0 (some 0xC7) 0xC8 0xC9 n) := by
    refine tells_writeLength h (fun hn => absurd hn (Nat.not_lt_zero _)) ?_ rfl rfl
    rintro _ ⟨⟩
    rfl
  by_cases h1 : n = 1
  · subst h1
    exact .inl ⟨0xD4, rfl, rfl⟩
  by_cases h2 : n = 2
  · subst h2
    exact .inl ⟨0xD5, rfl, rfl⟩
  by_cases h4 : n = 4
  · subst h4
    exact .inl ⟨0xD6, rfl, rfl⟩
  by_cases h8 : n = 8
  · subst h8
    exact .inl ⟨0xD7, rfl, rfl⟩
  by_cases h16 : n = 16
  · subst h16
    exact .inl ⟨0xD8, rfl, rfl⟩
  rwa [if_neg h1, if_neg h2, if_neg h4, if_neg h8, if_neg h16]

theorem take_extension (kind : Int8) {bytes : List UInt8} (h : bytes.length < 2 ^ 32)
    (depth : Nat) (rest : List UInt8) :
    take (depth + 3) ((extension kind bytes).write ++ rest) =
      some (.extension kind bytes, rest) := by
  rw [write, writeExtension, List.append_assoc,
    take_of_tells (takeExtension (depth + 2)) (tells_extension h)]
  · show takePayload (depth + 1) (.extension kind.toUInt8.toInt8) bytes.length (bytes ++ rest) = _
    exact takePayload_append (Nat.succ_ne_zero _) _ _ _
  · intro marker bs hshape
    simp only [take, ← Option.some.inj hshape, takeLeaf]
  · intro marker width bs hshape
    simp only [take, hshape, takeLeaf]

/-! ### Numbers -/

theorem take_single (x : Number.Single) (depth : Nat) (rest : List UInt8) :
    take (depth + 1) ((single x).write ++ rest) = some (.single x, rest) := by
  have hbits : x.bits.toNat < 256 ^ 4 := x.bits.toNat_lt
  have hvalue : (⟨x.bits.toNat.toUInt32⟩ : Number.Single) = x :=
    congrArg Number.Single.mk UInt32.ofNat_toNat
  have hshape : shape 0xCA = .single := rfl
  rw [write, List.cons_append]
  cases depth <;>
    simp only [take, hshape, takeLeaf, takeNumber_bigEndian hbits, Option.map_some, hvalue]

theorem take_double (x : Number.Double) (depth : Nat) (rest : List UInt8) :
    take (depth + 1) ((double x).write ++ rest) = some (.double x, rest) := by
  have hbits : x.bits.toNat < 256 ^ 8 := x.bits.toNat_lt
  have hvalue : Number.Double.ofBits x.bits.toNat = x :=
    congrArg Number.Double.mk UInt64.ofNat_toNat
  have hshape : shape 0xCB = .double := rfl
  rw [write, List.cons_append]
  cases depth <;>
    simp only [take, hshape, takeLeaf, takeNumber_bigEndian hbits, Option.map_some, hvalue]

/-- Two's complement of a width holds the integers down to minus half of what the width counts. -/
theorem take_signed {marker : UInt8} {width : Nat} (hshape : shape marker = .signed width)
    {x : Int} (hlow : -((256 ^ width / 2 : Nat) : Int) ≤ x) (hneg : x < 0) (depth : Nat)
    (rest : List UInt8) :
    take (depth + 1) (marker :: (bigEndian width ((256 ^ width : Nat) + x).toNat ++ rest)) =
      some (.negative (Int64.ofInt x), rest) := by
  have hpos : 0 < 256 ^ width := Nat.pow_pos (by decide)
  obtain ⟨n, hn⟩ : ∃ n : Nat, ((256 ^ width : Nat) + x) = n :=
    ⟨_, (Int.toNat_of_nonneg (by omega)).symm⟩
  have hlt : n < 256 ^ width := by omega
  have hhigh : ¬ n < Nat.pow 256 width / 2 := by
    show ¬ n < 256 ^ width / 2
    omega
  have hback : (n : Int) - Nat.pow 256 width = x := by
    show (n : Int) - (256 ^ width : Nat) = x
    omega
  have htake : takeSigned width (bigEndian width n ++ rest) =
      some (.negative (Int64.ofInt x), rest) := by
    rw [takeSigned, takeNumber_bigEndian hlt, Option.map_some]
    simp only [if_neg hhigh, hback]
  rw [hn, Int.toNat_natCast]
  cases depth <;> simp only [take, hshape, takeLeaf, htake]

theorem take_negative {n : Int64} (h : n < 0) (depth : Nat) (rest : List UInt8) :
    take (depth + 1) ((negative n).write ++ rest) = some (.negative n, rest) := by
  have hneg : n.toInt < 0 := Int64.lt_iff_toInt_lt.mp h
  have hlow := Int64.le_toInt n
  have hvalue : Int64.ofInt n.toInt = n := Int64.ofInt_toInt n
  rw [write, if_pos h, writeNegative]
  split
  · have hbyte : (256 + n.toInt).toNat.toUInt8.toNat = (256 + n.toInt).toNat :=
      UInt8.toNat_ofNat_of_lt' (show _ < 256 by omega)
    have hback : ((256 + n.toInt).toNat : Int) - 256 = n.toInt := by omega
    have hshape : shape (256 + n.toInt).toNat.toUInt8 = .value (.negative n) := by
      rw [shape, hbyte, if_neg (by omega), if_neg (by omega), if_neg (by omega),
        if_neg (by omega), if_pos (by omega), hback, hvalue]
    exact take_value hshape depth rest
  have hwide (marker : UInt8) (width : Nat) (hshape : shape marker = .signed width)
      (hfits : -((256 ^ width / 2 : Nat) : Int) ≤ n.toInt) :
      take (depth + 1)
        (marker :: (bigEndian width ((256 ^ width : Nat) + n.toInt).toNat ++ rest)) =
          some (.negative n, rest) := by
    rw [take_signed hshape hfits hneg, hvalue]
  split
  · exact hwide 0xD0 1 rfl (by omega)
  · split
    · exact hwide 0xD1 2 rfl (by omega)
    · split
      · exact hwide 0xD2 4 rfl (by omega)
      · exact hwide 0xD3 8 rfl (by omega)

/-! ### Values that contain values -/

theorem takeItems_write {item : List UInt8 → Option (Msgpack × List UInt8)}
    {items : List Msgpack} (h : ∀ v ∈ items, ∀ rest, item (v.write ++ rest) = some (v, rest))
    (seen : List Msgpack) (rest : List UInt8) :
    takeItems item items.length seen (writeItems items ++ rest) =
      some (seen.reverse ++ items, rest) := by
  induction items generalizing seen with
  | nil => rw [List.append_nil]; rfl
  | cons v items ih =>
    rw [writeItems, List.append_assoc, List.length_cons, takeItems, h v List.mem_cons_self]
    dsimp only
    rw [ih fun w hw => h w (List.mem_cons_of_mem _ hw), List.reverse_cons, List.append_assoc,
      List.singleton_append]

theorem takeEntries_write {item : List UInt8 → Option (Msgpack × List UInt8)}
    {entries : List (Msgpack × Msgpack)}
    (h : ∀ e ∈ entries, (∀ rest, item (e.1.write ++ rest) = some (e.1, rest)) ∧
      ∀ rest, item (e.2.write ++ rest) = some (e.2, rest))
    (seen : List (Msgpack × Msgpack)) (rest : List UInt8) :
    takeEntries item entries.length seen (writeEntries entries ++ rest) =
      some (seen.reverse ++ entries, rest) := by
  induction entries generalizing seen with
  | nil => rw [List.append_nil]; rfl
  | cons e entries ih =>
    obtain ⟨key, value⟩ := e
    obtain ⟨hkey, hvalue⟩ := h _ List.mem_cons_self
    rw [writeEntries, List.append_assoc, List.append_assoc, List.length_cons, takeEntries, hkey]
    dsimp only
    rw [hvalue]
    dsimp only
    rw [ih fun e he => h e (List.mem_cons_of_mem _ he), List.reverse_cons, List.append_assoc,
      List.singleton_append]

theorem take_array {items : List Msgpack} {depth : Nat} (hlength : items.length < 2 ^ 32)
    (h : ∀ v ∈ items, ∀ rest, take depth (v.write ++ rest) = some (v, rest))
    (rest : List UInt8) :
    take (depth + 2) ((array items).write ++ rest) = some (.array items, rest) := by
  have htells : Tells (fun n => some (.array n)) .arrayOf items.length
      (writeLength 16 0x90 none 0xDC 0xDD items.length) := by
    refine tells_writeLength hlength (fun hn => congrArg some ?_) nofun rfl rfl
    rw [shape, UInt8.toNat_ofNat_of_lt' (show _ < 256 by omega), if_neg (by omega),
      if_neg (by omega), if_pos (by omega), Nat.add_sub_cancel_left]
  rw [write, List.append_assoc, take_of_tells (fun n bs =>
    (takeItems (take depth) n [] bs).map fun p => (.array p.1, p.2)) htells]
  · rw [takeItems_write h]
    rfl
  · intro marker bs hshape
    simp only [take, ← Option.some.inj hshape]
  · intro marker width bs hshape
    simp only [take, hshape]

theorem take_map {entries : List (Msgpack × Msgpack)} {depth : Nat}
    (hlength : entries.length < 2 ^ 32)
    (h : ∀ e ∈ entries, (∀ rest, take depth (e.1.write ++ rest) = some (e.1, rest)) ∧
      ∀ rest, take depth (e.2.write ++ rest) = some (e.2, rest)) (rest : List UInt8) :
    take (depth + 2) ((map entries).write ++ rest) = some (.map entries, rest) := by
  have htells : Tells (fun n => some (.map n)) .mapOf entries.length
      (writeLength 16 0x80 none 0xDE 0xDF entries.length) := by
    refine tells_writeLength hlength (fun hn => congrArg some ?_) nofun rfl rfl
    rw [shape, UInt8.toNat_ofNat_of_lt' (show _ < 256 by omega), if_neg (by omega),
      if_pos (by omega), Nat.add_sub_cancel_left]
  rw [write, List.append_assoc, take_of_tells (fun n bs =>
    (takeEntries (take depth) n [] bs).map fun p => (.map p.1, p.2)) htells]
  · rw [takeEntries_write h]
    rfl
  · intro marker bs hshape
    simp only [take, ← Option.some.inj hshape]
  · intro marker width bs hshape
    simp only [take, hshape]

/-- **A value that fits is read as it was written**, whatever comes behind it. -/
theorem take_write {depth : Nat} {v : Msgpack} (h : v.Fits depth) (rest : List UInt8) :
    take depth (v.write ++ rest) = some (v, rest) := by
  -- a container leaves two levels less to what it contains
  induction depth using Nat.strongRecOn generalizing v rest with
  | ind depth ih =>
    obtain ⟨hregular, hlevels, hsize⟩ := h
    obtain ⟨left, rfl⟩ := Nat.exists_eq_add_of_le' hlevels
    cases v with
    | nil => exact take_value rfl left rest
    | bool b => cases b <;> exact take_value rfl left rest
    | natural n => exact take_natural n left rest
    | negative n => exact take_negative (of_decide_eq_true hregular) left rest
    | single x => exact take_single x left rest
    | double x => exact take_double x left rest
    | string bytes =>
      rw [write_string hregular, List.length_append] at hsize
      exact take_string hregular (by omega) left rest
    | binary bytes =>
      rw [write, writeBinary, List.length_append] at hsize
      exact take_binary (by omega) left rest
    | array items =>
      rw [write, List.length_append] at hsize
      have hlength := length_le_writeItems items
      have hitems := Fits.of_items hregular (Nat.le_add_left _ left) (by omega)
      exact take_array (by omega) (fun v hv => ih _ (by rw [levels]; omega) (hitems v hv)) rest
    | map entries =>
      rw [write, List.length_append] at hsize
      have hlength := length_le_writeEntries entries
      have hentries := Fits.of_entries hregular (Nat.le_add_left _ left) (by omega)
      have hread {v : Msgpack} (hv : v.Fits (left + levelsOfEntries entries))
          (rest : List UInt8) :
          take (left + levelsOfEntries entries) (v.write ++ rest) = some (v, rest) :=
        ih _ (by rw [levels]; omega) hv rest
      exact take_map (by omega) (fun e he => ⟨hread (hentries e he).1, hread (hentries e he).2⟩)
        rest
    | extension kind bytes =>
      rw [write, writeExtension, List.length_append, List.length_cons] at hsize
      exact take_extension kind (by omega) left rest

/-! ### Reading keeps to its levels -/

theorem levels_of_shape {marker : UInt8} {v : Msgpack} (h : shape marker = .value v) :
    v.levels = 1 := by
  unfold shape at h
  dsimp only at h
  repeat' split at h
  all_goals cases h
  all_goals rfl

theorem of_takePayload {depth length : Nat} {make : List UInt8 → Msgpack} {bs rest : List UInt8}
    {v : Msgpack} (h : takePayload depth make length bs = some (v, rest)) :
    depth ≠ 0 ∧ ∃ bytes, v = make bytes := by
  rw [takePayload] at h
  split at h
  · cases h
  · rename_i hdepth
    obtain ⟨p, -, hp⟩ := Option.map_eq_some_iff.mp h
    cases hp
    exact ⟨hdepth, p.1, rfl⟩

theorem levels_of_takeText {depth length : Nat} {bs rest : List UInt8} {v : Msgpack}
    (h : takeText depth length bs = some (v, rest)) : v.levels ≤ depth + 1 := by
  obtain ⟨hdepth, bytes, rfl⟩ := of_takePayload h
  rw [levels]
  omega

theorem levels_of_takeExtension {depth length : Nat} {bs rest : List UInt8} {v : Msgpack}
    (h : takeExtension depth length bs = some (v, rest)) : v.levels ≤ depth + 1 := by
  cases bs with
  | nil => cases h
  | cons kind bs =>
    obtain ⟨hdepth, bytes, rfl⟩ := of_takePayload h
    rw [levels]
    omega

theorem levels_of_takeLeaf {depth : Nat} {marker : UInt8} {bs rest : List UInt8} {v : Msgpack}
    (h : takeLeaf depth (shape marker) bs = some (v, rest)) : v.levels ≤ depth + 1 := by
  have hnumber {width : Nat} (make : Nat → Msgpack) (hmake : ∀ n, (make n).levels = 1)
      (hn : (takeNumber width bs).map (fun p => (make p.1, p.2)) = some (v, rest)) :
      v.levels ≤ depth + 1 := by
    obtain ⟨p, -, hp⟩ := Option.map_eq_some_iff.mp hn
    cases hp
    rw [hmake]
    exact Nat.le_add_left 1 depth
  cases hshape : shape marker <;> rw [hshape] at h
  case value w =>
    cases h
    rw [levels_of_shape hshape]
    exact Nat.le_add_left 1 depth
  case number width => exact hnumber (fun n => .natural (UInt64.ofNat n)) (fun _ => rfl) h
  case signed width =>
    refine hnumber (fun n => if n < Nat.pow 256 width / 2 then .natural (UInt64.ofNat n)
      else .negative (Int64.ofInt ((n : Int) - Nat.pow 256 width))) (fun n => ?_) h
    split <;> rfl
  case single => exact hnumber (fun n => .single ⟨n.toUInt32⟩) (fun _ => rfl) h
  case double => exact hnumber (fun n => .double (.ofBits n)) (fun _ => rfl) h
  case string length => exact levels_of_takeText h
  case stringOf width =>
    obtain ⟨p, -, hp⟩ := Option.bind_eq_some_iff.mp h
    exact levels_of_takeText hp
  case binaryOf width =>
    obtain ⟨p, -, hp⟩ := Option.bind_eq_some_iff.mp h
    obtain ⟨hdepth, bytes, rfl⟩ := of_takePayload hp
    rw [levels]
    omega
  case extension length => exact levels_of_takeExtension h
  case extensionOf width =>
    obtain ⟨p, -, hp⟩ := Option.bind_eq_some_iff.mp h
    exact levels_of_takeExtension hp
  all_goals cases h

theorem levelsOfItems_le_iff {depth : Nat} {items : List Msgpack} :
    levelsOfItems items ≤ depth ↔ ∀ v ∈ items, v.levels ≤ depth := by
  induction items with
  | nil => exact iff_of_true (Nat.zero_le _) nofun
  | cons v items ih => rw [levelsOfItems, Nat.max_le, List.forall_mem_cons, ih]

theorem levelsOfEntries_le_iff {depth : Nat} {entries : List (Msgpack × Msgpack)} :
    levelsOfEntries entries ≤ depth ↔
      ∀ e ∈ entries, e.1.levels ≤ depth ∧ e.2.levels ≤ depth := by
  induction entries with
  | nil => exact iff_of_true (Nat.zero_le _) nofun
  | cons e entries ih =>
    rw [levelsOfEntries, Nat.max_le, Nat.max_le, List.forall_mem_cons, ih]

theorem levels_of_takeItems {item : List UInt8 → Option (Msgpack × List UInt8)} {depth : Nat}
    (hitem : ∀ bs v rest, item bs = some (v, rest) → v.levels ≤ depth) {n : Nat}
    {seen items : List Msgpack} {bs rest : List UInt8} (hseen : ∀ v ∈ seen, v.levels ≤ depth)
    (h : takeItems item n seen bs = some (items, rest)) : levelsOfItems items ≤ depth := by
  induction n generalizing seen bs with
  | zero =>
    cases h
    exact levelsOfItems_le_iff.mpr fun v hv => hseen v (List.mem_reverse.mp hv)
  | succ n ih =>
    rw [takeItems] at h
    split at h
    · rename_i v behind hv
      exact ih (List.forall_mem_cons.mpr ⟨hitem _ _ _ hv, hseen⟩) h
    · cases h

theorem levels_of_takeEntries {item : List UInt8 → Option (Msgpack × List UInt8)} {depth : Nat}
    (hitem : ∀ bs v rest, item bs = some (v, rest) → v.levels ≤ depth) {n : Nat}
    {seen entries : List (Msgpack × Msgpack)} {bs rest : List UInt8}
    (hseen : ∀ e ∈ seen, e.1.levels ≤ depth ∧ e.2.levels ≤ depth)
    (h : takeEntries item n seen bs = some (entries, rest)) :
    levelsOfEntries entries ≤ depth := by
  induction n generalizing seen bs with
  | zero =>
    cases h
    exact levelsOfEntries_le_iff.mpr fun e he => hseen e (List.mem_reverse.mp he)
  | succ n ih =>
    rw [takeEntries] at h
    split at h
    · cases h
    · rename_i key behind hkey
      split at h
      · cases h
      · rename_i value behind' hvalue
        exact ih (List.forall_mem_cons.mpr
          ⟨⟨hitem _ _ _ hkey, hitem _ _ _ hvalue⟩, hseen⟩) h

/-- **No value is read that is deeper than the levels**, whatever the bytes are. -/
theorem levels_le_of_take {depth : Nat} {bs rest : List UInt8} {v : Msgpack}
    (h : take depth bs = some (v, rest)) : v.levels ≤ depth := by
  -- the cases are those of `take`; what a container holds is read with two levels less
  induction depth using Nat.strongRecOn generalizing bs v rest with
  | ind depth ih =>
    match depth, bs with
    | _, [] => rw [take] at h; cases h
    | 0, _ :: _ => rw [take] at h; cases h
    | 1, marker :: bs => rw [take] at h; exact levels_of_takeLeaf h
    | depth + 2, marker :: bs =>
      have hitem (bs v rest) (hv : take depth bs = some (v, rest)) : v.levels ≤ depth :=
        ih depth (by omega) hv
      have harray {n : Nat} {bs : List UInt8} (hn : (takeItems (take depth) n [] bs).map
          (fun p => (Msgpack.array p.1, p.2)) = some (v, rest)) : v.levels ≤ depth + 2 := by
        obtain ⟨p, hp, hv⟩ := Option.map_eq_some_iff.mp hn
        cases hv
        exact Nat.add_le_add_right (levels_of_takeItems hitem (List.forall_mem_nil _) hp) 2
      have hmap {n : Nat} {bs : List UInt8} (hn : (takeEntries (take depth) n [] bs).map
          (fun p => (Msgpack.map p.1, p.2)) = some (v, rest)) : v.levels ≤ depth + 2 := by
        obtain ⟨p, hp, hv⟩ := Option.map_eq_some_iff.mp hn
        cases hv
        exact Nat.add_le_add_right (levels_of_takeEntries hitem (List.forall_mem_nil _) hp) 2
      rw [take] at h
      split at h
      · exact harray h
      · obtain ⟨p, -, hp⟩ := Option.bind_eq_some_iff.mp h
        exact harray hp
      · exact hmap h
      · obtain ⟨p, -, hp⟩ := Option.bind_eq_some_iff.mp h
        exact hmap hp
      · exact levels_of_takeLeaf h

end SchemaMigration.Msgpack

namespace SchemaMigration.Tarantool

open Msgpack

/-! ### Requests -/

theorem lookup_requestHeader (request sync stream : UInt64) :
    lookup requestKey (requestHeader request sync stream) = some (.natural request) ∧
      lookup syncKey (requestHeader request sync stream) = some (.natural sync) ∧
      lookup streamKey (requestHeader request sync stream) =
        if stream = 0 then none else some (.natural stream) := by
  refine ⟨rfl, rfl, ?_⟩
  unfold requestHeader
  split <;> rfl

/-- The header and the body of a request have nothing between them, and are read one after the
other, just if the body is no deeper than reading allows. -/
theorem decodeResponse_write_iff {body : Entries} (hregular : (Msgpack.map body).isRegular)
    (hsize : (Msgpack.map body).write.length < 2 ^ 32) (request sync stream : UInt64) :
    decodeResponse ((Msgpack.map (requestHeader request sync stream)).write ++
      (Msgpack.map body).write) = .ok (requestHeader request sync stream, some body) ↔
        (Msgpack.map body).levels ≤ maxDepth := by
  have hne : (Msgpack.map body).write.isEmpty = false := by
    simpa using write_ne_nil (Msgpack.map body)
  rw [decodeResponse, read_requestHeader]
  simp only [hne, Bool.false_eq_true, if_false]
  constructor
  · intro hdecode
    split at hdecode
    · cases hdecode
    · rename_i hread
      cases hdecode
      exact levels_le_of_take hread
    · cases hdecode
  · intro hlevels
    have hread := take_write ⟨hregular, hlevels, hsize⟩ []
    rw [List.append_nil] at hread
    rw [Msgpack.read, hread]

/-- **A request is read as it was written.**  It is refused only if it is too long for the length of
a packet.  Otherwise its packet is taken from the front of a stream and nothing else is.  The
payload gives back the body just if it is no deeper than reading allows, and with it the header,
which has a stream just if there is one.  The same payload is taken whichever form its length is
written in. -/
theorem encodeRequest_read {body : Entries} (hregular : (Msgpack.map body).isRegular)
    (hsize : (Msgpack.map body).write.length < 2 ^ 32) (request sync stream : UInt64) :
    match encodeRequest request sync stream body with
    | .error e => e = .protocol .requestSize ∧
        2 ^ 32 ≤ (Msgpack.map (requestHeader request sync stream)).write.length +
          (Msgpack.map body).write.length
    | .ok packet => ∃ payload header,
        (∀ rest, takePacket (packet ++ rest) = (.ok payload, rest)) ∧
        (decodeResponse payload = .ok (header, some body) ↔
          (Msgpack.map body).levels ≤ maxDepth) ∧
        lookup requestKey header = some (.natural request) ∧
        lookup syncKey header = some (.natural sync) ∧
        lookup streamKey header = (if stream = 0 then none else some (.natural stream)) ∧
        ∀ form : LengthForm, payload.length < form.limit → ∀ rest,
          takePacket (form.write payload.length ++ payload ++ rest) = (.ok payload, rest) := by
  have hread := decodeResponse_write_iff hregular hsize request sync stream
  obtain ⟨hrequest, hsync, hstream⟩ := lookup_requestHeader request sync stream
  rw [← List.length_append]
  unfold encodeRequest
  generalize (Msgpack.map (requestHeader request sync stream)).write ++
    (Msgpack.map body).write = payload at hread ⊢
  by_cases hfits : payload.length < Nat.pow 2 32
  · simp only [if_pos hfits]
    refine ⟨payload, _, fun rest => ?_, hread, hrequest, hsync, hstream, fun form hform rest => ?_⟩
    · exact takePacket_framed ⟨.four, hfits, rfl⟩ rest
    · exact takePacket_framed ⟨form, hform, rfl⟩ rest
  · simp only [if_neg hfits, true_and]
    exact Nat.le_of_not_lt hfits

/-- A request of a stream, whose body holds a text, and a list with an integer below zero and with
bytes that are no text. -/
theorem encodeRequest_read_nested :
    let body : Entries := [(.natural exprKey, .ofText "return ü"),
      (.natural tupleKey, .array [.negative (-129), .map [(.nil, .binary [0xFF])]])]
    (Msgpack.map body).isRegular = true ∧ (Msgpack.map body).levels ≤ maxDepth ∧
      (Msgpack.map body).write.length < 2 ^ 32 ∧
      ∃ packet payload header, encodeRequest evalCode 7 3 body = .ok packet ∧
        takePacket (packet ++ [0xCE]) = (.ok payload, [0xCE]) ∧
        decodeResponse payload = .ok (header, some body) ∧
        lookup streamKey header = some (.natural 3) := by
  intro body
  have hregular : (Msgpack.map body).isRegular = true := by decide +kernel
  have hlevels : (Msgpack.map body).levels ≤ maxDepth := by decide +kernel
  have hsize : (Msgpack.map body).write.length < 2 ^ 32 := by decide +kernel
  have hround := encodeRequest_read hregular hsize evalCode 7 3
  cases hencode : encodeRequest evalCode 7 3 body with
  | error e =>
    rw [hencode] at hround
    exact absurd hround.2 (by decide +kernel)
  | ok packet =>
    rw [hencode] at hround
    obtain ⟨payload, header, htake, hdecode, -, -, hstream, -⟩ := hround
    exact ⟨hregular, hlevels, hsize, packet, payload, header, rfl, htake [0xCE],
      hdecode.mpr hlevels, hstream⟩

end SchemaMigration.Tarantool
