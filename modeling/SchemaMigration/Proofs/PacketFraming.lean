import SchemaMigration.Tarantool.Packet
import Mathlib.Tactic.Ring
/-! # Packets in a stream

A packet is one length and exactly as many bytes, and the length can be written in one of four ways
(`LengthForm`).  Reading a stream has three ends.  It takes the packet in front
(`takePacket_ok_iff`); or what is there is the beginning of a packet whose rest is missing
(`takePacket_end_iff`); or the first byte opens no length.  There is no fourth
(`takePacket_cases`).

A request that was written is a packet, and the number that it was given can be read from its bytes
(`carriedNumber_encodeRequest`). -/
namespace SchemaMigration.Msgpack

/-! ### Numbers of a width -/

@[simp] theorem length_bigEndian (width n : Nat) : (bigEndian width n).length = width := by
  induction width with
  | zero => rfl
  | succ width ih => rw [bigEndian, List.length_cons, ih]

theorem foldl_bigEndian (width n a : Nat) :
    (bigEndian width n).foldl (fun m b => 256 * m + b.toNat) a =
      a * 256 ^ width + n % 256 ^ width := by
  induction width generalizing a with
  | zero => simp [bigEndian, Nat.mod_one]
  | succ width ih =>
    have hbyte : (n / Nat.pow 256 width).toUInt8.toNat = n / 256 ^ width % 256 := by
      rw [Nat.toUInt8, UInt8.toNat_ofNat']
      rfl
    rw [bigEndian, List.foldl_cons, ih, hbyte, Nat.mod_pow_succ]
    ring

/-- A number that fits its width is read as it was written. -/
theorem ofBigEndian_bigEndian {width n : Nat} (h : n < 256 ^ width) :
    ofBigEndian (bigEndian width n) = n := by
  rw [ofBigEndian, foldl_bigEndian, Nat.zero_mul, Nat.zero_add, Nat.mod_eq_of_lt h]

theorem ofBigEndian_cons (b : UInt8) (bs : List UInt8) :
    ofBigEndian (b :: bs) = b.toNat * 256 ^ bs.length + ofBigEndian bs := by
  have hfrom (cs : List UInt8) (a : Nat) :
      cs.foldl (fun n b => 256 * n + b.toNat) a = a * 256 ^ cs.length + ofBigEndian cs := by
    induction cs generalizing a with
    | nil => simp [ofBigEndian]
    | cons c cs ih =>
      rw [ofBigEndian, List.foldl_cons, List.foldl_cons, ih, ih, List.length_cons]
      ring
  rw [ofBigEndian, List.foldl_cons, hfrom]
  ring

theorem ofBigEndian_lt (bs : List UInt8) : ofBigEndian bs < 256 ^ bs.length := by
  induction bs with
  | nil => simp [ofBigEndian]
  | cons b bs ih =>
    have hb : b.toNat + 1 ≤ 256 := b.toNat_lt
    calc ofBigEndian (b :: bs) < (b.toNat + 1) * 256 ^ bs.length := by
          rw [ofBigEndian_cons, Nat.add_mul]; omega
      _ ≤ 256 * 256 ^ bs.length := Nat.mul_le_mul_right _ hb
      _ = 256 ^ (b :: bs).length := by rw [List.length_cons]; ring

/-- The digit above a number of a width. -/
theorem mul_add_div_pow (width a n : Nat) :
    (a * 256 ^ width + n) / Nat.pow 256 width = a + n / Nat.pow 256 width := by
  have hpos : 0 < 256 ^ width := Nat.pow_pos (by decide)
  show (a * 256 ^ width + n) / 256 ^ width = a + n / 256 ^ width
  rw [Nat.add_comm, Nat.add_mul_div_right _ _ hpos, Nat.add_comm]

/-- What lies above the width is not written. -/
theorem bigEndian_mul_add (width a n : Nat) :
    bigEndian width (a * 256 ^ width + n) = bigEndian width n := by
  induction width generalizing a with
  | zero => rfl
  | succ width ih =>
    have hsplit : a * 256 ^ (width + 1) + n = a * 256 * 256 ^ width + n := by ring
    rw [bigEndian, bigEndian, hsplit, ih, mul_add_div_pow]
    congr 1
    apply UInt8.toNat.inj
    simp [Nat.toUInt8]

/-- Bytes are written as they were read. -/
theorem bigEndian_ofBigEndian (bs : List UInt8) : bigEndian bs.length (ofBigEndian bs) = bs := by
  induction bs with
  | nil => rfl
  | cons b bs ih =>
    have hlow : ofBigEndian bs / Nat.pow 256 bs.length = 0 :=
      Nat.div_eq_of_lt (ofBigEndian_lt bs)
    rw [List.length_cons, ofBigEndian_cons, bigEndian, mul_add_div_pow, hlow, bigEndian_mul_add, ih]
    simp [Nat.toUInt8]

theorem takeBytes_some_iff {n : Nat} {bs front rest : List UInt8} :
    takeBytes n bs = some (front, rest) ↔ front.length = n ∧ bs = front ++ rest := by
  simp only [takeBytes]
  constructor
  · intro h
    split at h
    · rename_i hn
      obtain ⟨rfl, rfl⟩ := Prod.mk.inj (Option.some.inj h)
      exact ⟨hn, (List.take_append_drop n bs).symm⟩
    · cases h
  · rintro ⟨rfl, rfl⟩
    simp

theorem takeBytes_none_iff {n : Nat} {bs : List UInt8} : takeBytes n bs = none ↔ bs.length < n := by
  simp only [takeBytes, List.length_take, ite_eq_right_iff, reduceCtorEq, imp_false]
  omega

theorem takeNumber_bigEndian {width n : Nat} (h : n < 256 ^ width) (rest : List UInt8) :
    takeNumber width (bigEndian width n ++ rest) = some (n, rest) := by
  rw [takeNumber, takeBytes_some_iff.mpr ⟨length_bigEndian width n, rfl⟩]
  simp only [Option.map_some, ofBigEndian_bigEndian h]

/-! ### Reading a written header -/

/-- A marker that is a value by itself. -/
theorem take_value {marker : UInt8} {v : Msgpack} (h : shape marker = .value v) (depth : Nat)
    (rest : List UInt8) : take (depth + 1) (marker :: rest) = some (v, rest) := by
  cases depth <;> simp only [take, h, takeLeaf]

/-- A marker with a number behind it. -/
theorem take_number {marker : UInt8} {width n : Nat} (h : shape marker = .number width)
    (hn : n < 256 ^ width) (depth : Nat) (rest : List UInt8) :
    take (depth + 1) (marker :: (bigEndian width n ++ rest)) =
      some (.natural (UInt64.ofNat n), rest) := by
  cases depth <;> simp only [take, h, takeLeaf, takeNumber_bigEndian hn, Option.map_some]

theorem shape_of_lt {marker : UInt8} (h : marker.toNat < 0x80) :
    shape marker = .value (.natural (UInt64.ofNat marker.toNat)) := by
  simp only [shape, if_pos h]

/-- A natural number is read as it was written, whatever comes behind it. -/
theorem take_natural (n : UInt64) (depth : Nat) (rest : List UInt8) :
    take (depth + 1) ((natural n).write ++ rest) = some (.natural n, rest) := by
  have hn : UInt64.ofNat n.toNat = n := UInt64.ofNat_toNat
  have hlt : n.toNat < 2 ^ 64 := n.toNat_lt
  rw [write, writeNatural]
  split
  · rename_i h
    have hbyte : n.toNat.toUInt8.toNat = n.toNat := by
      rw [Nat.toUInt8, UInt8.toNat_ofNat']
      omega
    rw [List.singleton_append, take_value (shape_of_lt (by rw [hbyte]; exact h)), hbyte, hn]
  · split
    · rw [List.cons_append, take_number rfl (by omega), hn]
    · split
      · rw [List.cons_append, take_number rfl (by omega), hn]
      · split
        · rw [List.cons_append, take_number rfl (by omega), hn]
        · rw [List.cons_append, take_number rfl (by omega), hn]

theorem length_writeNatural_le (n : Nat) : (writeNatural n).length ≤ 9 := by
  rw [writeNatural]
  repeat' split
  all_goals simp

/-- Entries of natural numbers are read as they were written. -/
theorem takeEntries_natural (es : List (UInt64 × UInt64)) (depth : Nat)
    (seen : List (Msgpack × Msgpack)) (rest : List UInt8) :
    takeEntries (take (depth + 1)) es.length seen
        (writeEntries (es.map fun e => (.natural e.1, .natural e.2)) ++ rest) =
      some (seen.reverse ++ es.map fun e => (.natural e.1, .natural e.2), rest) := by
  induction es generalizing seen with
  | nil => simp [takeEntries, writeEntries]
  | cons e es ih =>
    rw [List.map_cons, writeEntries, List.append_assoc, List.append_assoc, List.length_cons,
      takeEntries, take_natural]
    simp only [take_natural]
    rw [ih, List.reverse_cons, List.append_assoc, List.singleton_append]

/-- A short map of natural numbers is read as it was written. -/
theorem read_naturals {es : List (UInt64 × UInt64)} (h : es.length < 16) (rest : List UInt8) :
    read ((Msgpack.map (es.map fun e => (.natural e.1, .natural e.2))).write ++ rest) =
      some (.map (es.map fun e => (.natural e.1, .natural e.2)), rest) := by
  have hbyte : (0x80 + es.length).toUInt8.toNat = 0x80 + es.length := by
    rw [Nat.toUInt8, UInt8.toNat_ofNat']
    omega
  have hshape : shape (0x80 + es.length).toUInt8 = .map es.length := by
    rw [shape, hbyte, if_neg (by omega), if_pos (by omega), Nat.add_sub_cancel_left]
  rw [write, List.length_map, writeLength, if_pos h, List.append_assoc, List.singleton_append, read,
    maxDepth, take]
  simp only [hshape, takeEntries_natural, List.reverse_nil, List.nil_append, Option.map_some]

end SchemaMigration.Msgpack

namespace SchemaMigration.Tarantool

open Msgpack

/-! ### A length and as many bytes -/

/-- The ways to write the length of a packet. -/
inductive LengthForm where
  /-- The length is the byte itself. -/
  | bare
  /-- A marker, and the length in one, two or four bytes. -/
  | one
  | two
  | four
  deriving DecidableEq, Repr

namespace LengthForm

/-- The lengths that a form can write are below this. -/
def limit : LengthForm → Nat
  | bare => 0x80
  | one => 256
  | two => 65536
  | four => 4294967296

/-- A length in a form. -/
def write (n : Nat) : LengthForm → List UInt8
  | bare => [n.toUInt8]
  | one => 0xCC :: bigEndian 1 n
  | two => 0xCD :: bigEndian 2 n
  | four => 0xCE :: bigEndian 4 n

end LengthForm

/-- A packet is the length of its payload and the payload. -/
def Framed (payload packet : List UInt8) : Prop :=
  ∃ form : LengthForm, payload.length < form.limit ∧
    packet = form.write payload.length ++ payload

/-- A byte with which a packet can begin. -/
def IsLengthMarker (marker : UInt8) : Prop :=
  marker < 0x80 ∨ marker = 0xCC ∨ marker = 0xCD ∨ marker = 0xCE

theorem takeExact_ok_iff {n : Nat} {bs front rest : List UInt8} :
    takeExact n bs = (.ok front, rest) ↔ front.length = n ∧ bs = front ++ rest := by
  rw [← takeBytes_some_iff, takeExact]
  cases takeBytes n bs <;> simp [Prod.ext_iff]

theorem takeExact_of_lt {n : Nat} {bs : List UInt8} (h : bs.length < n) :
    takeExact n bs = (.error (.io .endOfStream), []) := by
  rw [takeExact, takeBytes_none_iff.mpr h]

theorem takeCounted_ok_iff {width : Nat} {bs payload rest : List UInt8} :
    takeCounted width bs = (.ok payload, rest) ↔
      payload.length < 256 ^ width ∧ bs = bigEndian width payload.length ++ payload ++ rest := by
  constructor
  · intro h
    rw [takeCounted] at h
    split at h
    · rename_i length behind hlength
      obtain ⟨rfl, rfl⟩ := takeExact_ok_iff.mp hlength
      obtain ⟨hsize, rfl⟩ := takeExact_ok_iff.mp h
      rw [hsize, bigEndian_ofBigEndian, List.append_assoc]
      exact ⟨ofBigEndian_lt length, rfl⟩
    · cases h
  · rintro ⟨hsize, rfl⟩
    have hlength : takeExact width (bigEndian width payload.length ++ (payload ++ rest)) =
        (.ok (bigEndian width payload.length), payload ++ rest) :=
      takeExact_ok_iff.mpr ⟨length_bigEndian _ _, rfl⟩
    rw [List.append_assoc, takeCounted, hlength]
    show takeExact (ofBigEndian (bigEndian width payload.length)) (payload ++ rest) = _
    rw [ofBigEndian_bigEndian hsize, takeExact_ok_iff]
    exact ⟨rfl, rfl⟩

/-- A stream that ends within a packet can be completed to the packet. -/
theorem takeExact_cases (n : Nat) (bs : List UInt8) :
    (∃ front rest, takeExact n bs = (.ok front, rest)) ∨
      takeExact n bs = (.error (.io .endOfStream), []) ∧
        ∃ missing, missing ≠ [] ∧ (bs ++ missing).length = n := by
  by_cases h : bs.length < n
  · refine .inr ⟨takeExact_of_lt h, List.replicate (n - bs.length) 0, ?_, ?_⟩
    · simp only [ne_eq, List.replicate_eq_nil_iff]
      omega
    · simp only [List.length_append, List.length_replicate]
      omega
  · refine .inl ⟨bs.take n, bs.drop n, takeExact_ok_iff.mpr ⟨?_, (List.take_append_drop n bs).symm⟩⟩
    rw [List.length_take]
    omega

theorem takeCounted_cases (width : Nat) (bs : List UInt8) :
    (∃ payload rest, takeCounted width bs = (.ok payload, rest)) ∨
      takeCounted width bs = (.error (.io .endOfStream), []) ∧
        ∃ missing payload : List UInt8, missing ≠ [] ∧ payload.length < 256 ^ width ∧
          bs ++ missing = bigEndian width payload.length ++ payload := by
  rw [takeCounted]
  rcases takeExact_cases width bs with ⟨length, behind, hlength⟩ | ⟨hend, missing, hne, hsize⟩
  · rw [hlength]
    obtain ⟨rfl, rfl⟩ := takeExact_ok_iff.mp hlength
    rcases takeExact_cases (ofBigEndian length) behind with ⟨payload, rest, hpayload⟩ |
      ⟨hend, missing, hne, hsize⟩
    · exact .inl ⟨payload, rest, hpayload⟩
    · refine .inr ⟨hend, missing, behind ++ missing, hne, ?_, ?_⟩
      · exact hsize ▸ ofBigEndian_lt length
      · rw [hsize, bigEndian_ofBigEndian, List.append_assoc]
  · rw [hend]
    -- The length itself is cut short.  Whatever it was going to be, as many bytes can follow.
    let payload := List.replicate (ofBigEndian (bs ++ missing)) (0 : UInt8)
    have hpayload : payload.length = ofBigEndian (bs ++ missing) := List.length_replicate
    refine .inr ⟨rfl, missing ++ payload, payload, ?_, ?_, ?_⟩
    · exact fun h => hne (List.append_eq_nil_iff.mp h).1
    · rw [hpayload, ← hsize]
      exact ofBigEndian_lt _
    · rw [hpayload, ← hsize, bigEndian_ofBigEndian, List.append_assoc]

/-! ### The packet in front of a stream -/

theorem takePacket_four (bs : List UInt8) : takePacket (0xCE :: bs) = takeCounted 4 bs := rfl

theorem takePacket_two (bs : List UInt8) : takePacket (0xCD :: bs) = takeCounted 2 bs := rfl

theorem takePacket_one (bs : List UInt8) : takePacket (0xCC :: bs) = takeCounted 1 bs := rfl

theorem takePacket_bare {marker : UInt8} (h : marker < 0x80) (bs : List UInt8) :
    takePacket (marker :: bs) = takeExact marker.toNat bs := by
  have hne (high : UInt8) (hhigh : 0x80 ≤ high) : marker ≠ high := fun heq =>
    absurd (heq ▸ h) (UInt8.not_lt.mpr hhigh)
  rw [takePacket, if_neg (hne _ (by decide)), if_neg (hne _ (by decide)),
    if_neg (hne _ (by decide)), if_pos h]

theorem takePacket_marker {marker : UInt8} (h : ¬ IsLengthMarker marker) (bs : List UInt8) :
    takePacket (marker :: bs) = (.error (.protocol (.lengthMarker marker)), bs) := by
  obtain ⟨hbare, hone, htwo, hfour⟩ : ¬ marker < 0x80 ∧ marker ≠ 0xCC ∧ marker ≠ 0xCD ∧
      marker ≠ 0xCE := by simpa only [IsLengthMarker, not_or] using h
  rw [takePacket, if_neg hfour, if_neg htwo, if_neg hone, if_neg hbare]

/-- A reader behind the first byte of a packet either takes the packet or comes to the end of the
stream within it. -/
def TakesFrame (marker : UInt8) (bs : List UInt8)
    (taken : Except Failure (List UInt8) × List UInt8) : Prop :=
  (∃ payload packet rest, taken = (.ok payload, rest) ∧ Framed payload packet ∧
      marker :: bs = packet ++ rest) ∨
    (taken = (.error (.io .endOfStream), []) ∧
      ∃ missing payload, missing ≠ [] ∧ Framed payload (marker :: bs ++ missing))

theorem takesFrame_exact {marker : UInt8} (h : marker < 0x80) (bs : List UInt8) :
    TakesFrame marker bs (takeExact marker.toNat bs) := by
  have hlimit : marker.toNat < LengthForm.bare.limit := h
  have hwrite {payload : List UInt8} (hsize : payload.length = marker.toNat) :
      LengthForm.bare.write payload.length = [marker] := by
    rw [hsize, LengthForm.write, Nat.toUInt8, UInt8.ofNat_toNat]
  rcases takeExact_cases marker.toNat bs with ⟨payload, rest, htake⟩ | ⟨hend, missing, hne, hsize⟩
  · obtain ⟨hsize, rfl⟩ := takeExact_ok_iff.mp htake
    exact .inl ⟨payload, marker :: payload, rest, htake,
      ⟨.bare, hsize ▸ hlimit, by rw [hwrite hsize]; rfl⟩, rfl⟩
  · exact .inr ⟨hend, missing, bs ++ missing, hne, .bare, hsize ▸ hlimit, by rw [hwrite hsize]; rfl⟩

theorem takesFrame_counted (form : LengthForm) {marker : UInt8} {width : Nat}
    (hlimit : form.limit = 256 ^ width)
    (hwrite : ∀ n, form.write n = marker :: bigEndian width n) (bs : List UInt8) :
    TakesFrame marker bs (takeCounted width bs) := by
  rcases takeCounted_cases width bs with ⟨payload, rest, htake⟩ |
    ⟨hend, missing, payload, hne, hsize, hbs⟩
  · obtain ⟨hsize, hbs⟩ := takeCounted_ok_iff.mp htake
    refine .inl ⟨payload, _, rest, htake, ⟨form, hlimit ▸ hsize, rfl⟩, ?_⟩
    rw [hwrite, hbs, List.cons_append, List.cons_append]
  · refine .inr ⟨hend, missing, payload, hne, form, hlimit ▸ hsize, ?_⟩
    rw [hwrite, List.cons_append, List.cons_append, hbs]

/-- What the reading of a packet comes to. -/
theorem takePacket_cases (bs : List UInt8) :
    (∃ payload packet rest, takePacket bs = (.ok payload, rest) ∧ Framed payload packet ∧
        bs = packet ++ rest) ∨
      (takePacket bs = (.error (.io .endOfStream), []) ∧
        ∃ missing payload, missing ≠ [] ∧ Framed payload (bs ++ missing)) ∨
      ∃ marker rest, bs = marker :: rest ∧ ¬ IsLengthMarker marker ∧
        takePacket bs = (.error (.protocol (.lengthMarker marker)), rest) := by
  rcases bs with _ | ⟨marker, bs⟩
  · exact .inr (.inl ⟨rfl, [0], [], by simp, .bare, by decide, rfl⟩)
  · by_cases hmarker : IsLengthMarker marker
    · rcases hmarker with hbare | rfl | rfl | rfl
      · have hframe := takesFrame_exact hbare bs
        rw [← takePacket_bare hbare] at hframe
        exact hframe.imp_right Or.inl
      · exact (takesFrame_counted .one rfl (fun _ => rfl) bs).imp_right Or.inl
      · exact (takesFrame_counted .two rfl (fun _ => rfl) bs).imp_right Or.inl
      · exact (takesFrame_counted .four rfl (fun _ => rfl) bs).imp_right Or.inl
    · exact .inr (.inr ⟨marker, bs, rfl, hmarker, takePacket_marker hmarker bs⟩)

theorem takePacket_framed {payload packet : List UInt8} (h : Framed payload packet)
    (rest : List UInt8) : takePacket (packet ++ rest) = (.ok payload, rest) := by
  obtain ⟨form, hsize, rfl⟩ := h
  cases form with
  | bare =>
    have hbyte : payload.length.toUInt8.toNat = payload.length := by
      rw [Nat.toUInt8, UInt8.toNat_ofNat']
      exact Nat.mod_eq_of_lt (Nat.lt_trans hsize (by decide))
    have hmarker : payload.length.toUInt8 < 0x80 := by
      rw [UInt8.lt_iff_toNat_lt, hbyte]
      exact hsize
    show takePacket (payload.length.toUInt8 :: (payload ++ rest)) = _
    rw [takePacket_bare hmarker, hbyte]
    exact takeExact_ok_iff.mpr ⟨rfl, rfl⟩
  | one => exact (takePacket_one _).trans (takeCounted_ok_iff.mpr ⟨hsize, rfl⟩)
  | two => exact (takePacket_two _).trans (takeCounted_ok_iff.mpr ⟨hsize, rfl⟩)
  | four => exact (takePacket_four _).trans (takeCounted_ok_iff.mpr ⟨hsize, rfl⟩)

/-- What is taken from a stream is a packet, and what is left is all behind it. -/
theorem takePacket_ok_iff {bs payload rest : List UInt8} :
    takePacket bs = (.ok payload, rest) ↔
      ∃ packet, Framed payload packet ∧ bs = packet ++ rest := by
  constructor
  · intro h
    rcases takePacket_cases bs with ⟨payload', packet, rest', htake, hframed, hbs⟩ | ⟨hend, -⟩ |
      ⟨_, _, -, -, hmarker⟩
    · obtain ⟨hok, rfl⟩ := Prod.mk.inj (htake.symm.trans h)
      obtain rfl := Except.ok.inj hok
      exact ⟨packet, hframed, hbs⟩
    · cases hend.symm.trans h
    · cases hmarker.symm.trans h
  · rintro ⟨packet, hframed, rfl⟩
    exact takePacket_framed hframed rest

/-- A stream ends early just if it holds the beginning of a packet and no more. -/
theorem takePacket_end_iff {bs : List UInt8} :
    takePacket bs = (.error (.io .endOfStream), []) ↔
      ∃ missing payload, missing ≠ [] ∧ Framed payload (bs ++ missing) := by
  constructor
  · intro h
    rcases takePacket_cases bs with ⟨_, _, _, htake, -, -⟩ | ⟨-, hmissing⟩ | ⟨_, _, -, -, hmarker⟩
    · cases htake.symm.trans h
    · exact hmissing
    · cases hmarker.symm.trans h
  · rintro ⟨missing, payload, hne, hframed⟩
    have hwhole : takePacket (bs ++ missing) = (.ok payload, []) := by
      simpa using takePacket_framed hframed []
    rcases takePacket_cases bs with ⟨payload', packet, rest, -, hframed', rfl⟩ | ⟨hend, -⟩ |
      ⟨marker, rest, rfl, hmarker, hbad⟩
    · rw [List.append_assoc, takePacket_framed hframed'] at hwhole
      exact absurd (List.append_eq_nil_iff.mp (Prod.mk.inj hwhole).2).2 hne
    · exact hend
    · rw [List.cons_append, takePacket_marker hmarker] at hwhole
      cases hwhole

/-! ### Requests -/

/-- The number under a key of a header, if there is one. -/
def field? (key : UInt64) (header : Entries) : Option UInt64 :=
  (lookup key header).bind Msgpack.natural?

/-- The number that a packet carries in its header. -/
def carriedNumber (packet : List UInt8) : Option UInt64 :=
  match takePacket packet with
  | (.ok payload, _) =>
    match Msgpack.read payload with
    | some (.map header, _) => field? syncKey header
    | _ => none
  | _ => none

/-- A number that is missing counts as zero. -/
theorem number_eq_iff {key n : UInt64} {header : Entries} :
    number key header = n ↔ field? key header = some n ∨ n = 0 ∧ field? key header = none := by
  rw [number, ← field?]
  cases field? key header with
  | none => simp [eq_comm]
  | some m => simp

theorem requestHeader_eq (request sync stream : UInt64) :
    requestHeader request sync stream =
      ([(requestKey, request), (syncKey, sync)] ++
        if stream = 0 then [] else [(streamKey, stream)]).map
          fun e => (.natural e.1, .natural e.2) := by
  unfold requestHeader
  split <;> rfl

theorem read_requestHeader (request sync stream : UInt64) (rest : List UInt8) :
    Msgpack.read ((Msgpack.map (requestHeader request sync stream)).write ++ rest) =
      some (.map (requestHeader request sync stream), rest) := by
  rw [requestHeader_eq]
  refine read_naturals ?_ rest
  split <;> simp

theorem field?_requestHeader (request sync stream : UInt64) :
    field? syncKey (requestHeader request sync stream) = some sync := by
  simp [field?, lookup, requestHeader, Msgpack.natural?, requestKey, syncKey]

/-- A request is a packet, and it is refused just if its length does not fit. -/
theorem encodeRequest_cases (request sync stream : UInt64) (body : Entries) :
    encodeRequest request sync stream body = .error (.protocol .requestSize) ∨
      ∃ packet, encodeRequest request sync stream body = .ok packet ∧
        Framed ((Msgpack.map (requestHeader request sync stream)).write ++
          (Msgpack.map body).write) packet := by
  unfold encodeRequest
  simp only
  split
  · rename_i hsize
    exact .inr ⟨_, rfl, .four, hsize, rfl⟩
  · exact .inl rfl

/-- A request that was written carries its number. -/
theorem carriedNumber_encodeRequest {request sync stream : UInt64} {body : Entries}
    {packet : List UInt8} (h : encodeRequest request sync stream body = .ok packet) :
    carriedNumber packet = some sync := by
  rcases encodeRequest_cases request sync stream body with herror | ⟨_, hok, hframed⟩
  · cases herror.symm.trans h
  · obtain rfl := Except.ok.inj (hok.symm.trans h)
    have htake := takePacket_framed hframed []
    rw [List.append_nil] at htake
    rw [carriedNumber, htake]
    simp only [read_requestHeader, field?_requestHeader]

end SchemaMigration.Tarantool
