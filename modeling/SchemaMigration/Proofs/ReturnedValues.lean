import SchemaMigration.Proofs.CalendarDays
import SchemaMigration.Proofs.IntegerReading
import SchemaMigration.Proofs.TextCoding
import SchemaMigration.Tarantool.Values
/-! # Values that come back

A value that is sent as an argument and returned as a result comes back in the same shape, but the
wire has one form for an integer from zero on and none for a point in time (`Value.settled`).  After
that it stays as it is, and whoever reads it into a scalar destination gets what the value itself
would have given (`Tarantool.returned_settled`). -/
namespace SchemaMigration

open Number

/-! ### The form in which values come back -/

namespace Value

/-- An integer in the form in which it comes back. -/
def ofCount (n : Int) : Value :=
  if 0 ≤ n then .uint (UInt64.ofNat n.toNat) else .int (Int64.ofInt n)

mutual

/-- The form in which a value comes back: an integer from zero on is unsigned, and a point in time
is the number of its whole seconds. -/
def settled : Value → Value
  | .int n => ofCount n.toInt
  | .time t => ofCount t.seconds
  | .tuple vs => .tuple (settledAll vs)
  | v => v

/-- The forms in which values come back. -/
def settledAll : List Value → List Value
  | [] => []
  | v :: vs => v.settled :: settledAll vs

end

mutual

/-- Whether 64 bits count the seconds of each point in time in a value. -/
def isCounted : Value → Bool
  | .time t => -2 ^ 63 ≤ t.seconds && t.seconds < 2 ^ 63
  | .tuple vs => areCounted vs
  | .null | .bool _ | .int _ | .uint _ | .float _ | .text _ | .bytes _ => true

/-- `isCounted` for each of some values. -/
def areCounted : List Value → Bool
  | [] => true
  | v :: vs => v.isCounted && areCounted vs

end

/-- So it is with every date of the calendar. -/
theorem isCounted_of_year {t : Instant} (hleast : Calendar.minYear ≤ t.date.year)
    (hgreatest : t.date.year ≤ Calendar.maxYear) : (time t).isCounted = true := by
  rw [isCounted, Bool.and_eq_true, decide_eq_true_eq, decide_eq_true_eq]
  exact Calendar.seconds_of_year hleast hgreatest

variable {n : Int}

theorem ofCount_of_nonneg (h : 0 ≤ n) : ofCount n = .uint (UInt64.ofNat n.toNat) := if_pos h

theorem ofCount_of_neg (h : n < 0) : ofCount n = .int (Int64.ofInt n) := if_neg (not_le.mpr h)

theorem isCounted_ofCount (n : Int) : (ofCount n).isCounted = true := by
  rw [ofCount]
  split <;> rfl

theorem settled_ofCount (hlow : -2 ^ 63 ≤ n) (hhigh : n < 2 ^ 63) :
    (ofCount n).settled = ofCount n := by
  rcases lt_or_ge n 0 with hn | hn
  · rw [ofCount_of_neg hn, settled, Int64.toInt_ofInt_of_le hlow hhigh, ofCount_of_neg hn]
  · rw [ofCount_of_nonneg hn]
    rfl

mutual

/-- What has come back is settled. -/
theorem settled_settled : (v : Value) → v.isCounted = true → v.settled.settled = v.settled
  | .int n, _ => settled_ofCount n.le_toInt n.toInt_lt
  | .time t, h => by
    rw [isCounted, Bool.and_eq_true, decide_eq_true_eq, decide_eq_true_eq] at h
    exact settled_ofCount h.1 h.2
  | .tuple vs, h => by
    rw [settled, settled, settledAll_settledAll vs h]
  | .null, _ | .bool _, _ | .uint _, _ | .float _, _ | .text _, _ | .bytes _, _ => rfl

theorem settledAll_settledAll :
    (vs : List Value) → areCounted vs = true → settledAll (settledAll vs) = settledAll vs
  | [], _ => rfl
  | v :: vs, h => by
    obtain ⟨hv, hvs⟩ := Bool.and_eq_true_iff.mp h
    rw [settledAll, settledAll, settled_settled v hv, settledAll_settledAll vs hvs]

end

mutual

theorem isCounted_settled : (v : Value) → v.settled.isCounted = true
  | .int n => isCounted_ofCount n.toInt
  | .time t => isCounted_ofCount t.seconds
  | .tuple vs => areCounted_settledAll vs
  | .null | .bool _ | .uint _ | .float _ | .text _ | .bytes _ => rfl

theorem areCounted_settledAll : (vs : List Value) → areCounted (settledAll vs) = true
  | [] => rfl
  | v :: vs => by
    rw [settledAll, areCounted, isCounted_settled v, areCounted_settledAll vs]
    rfl

end

end Value

/-! ### There and back -/

namespace Tarantool

/-- A value that is sent as an argument and comes back as a result. -/
def returned (v : Value) : Value := ofMsgpack (toMsgpack v)

theorem ofMsgpack_ofInt64 (n : Int64) : ofMsgpack (.ofInt64 n) = .ofCount n.toInt := by
  rw [Msgpack.ofInt64]
  split
  · rename_i hn
    rw [Value.ofCount_of_neg (Int64.lt_iff_toInt_lt.mp hn), Int64.ofInt_toInt]
    rfl
  · rename_i hn
    rw [Value.ofCount_of_nonneg (not_lt.mp fun h => hn (Int64.lt_iff_toInt_lt.mpr h))]
    rfl

theorem ofMsgpack_ofText (s : String) : ofMsgpack (.ofText s) = .text s := by
  have hdecode : Text.Utf8.decodeString (Text.Utf8.encodeString s) = .ok s := by
    rw [Text.Utf8.decodeString, Text.Utf8.encodeString, Text.Utf8.decode_encode]
    exact congrArg Except.ok String.ofList_toList
  rw [Msgpack.ofText, ofMsgpack, hdecode]

mutual

theorem returned_eq : (v : Value) → v.isCounted = true → ofMsgpack (toMsgpack v) = v.settled
  | .int n, _ => ofMsgpack_ofInt64 n
  | .time t, h => by
    rw [Value.isCounted, Bool.and_eq_true, decide_eq_true_eq, decide_eq_true_eq] at h
    rw [toMsgpack, ofMsgpack_ofInt64, Int64.toInt_ofInt_of_le h.1 h.2, Value.settled]
  | .text s, _ => ofMsgpack_ofText s
  | .tuple vs, h => by
    rw [toMsgpack, ofMsgpack, returnedAll_eq vs h, Value.settled]
  | .null, _ | .bool _, _ | .uint _, _ | .float _, _ | .bytes _, _ => rfl

theorem returnedAll_eq : (vs : List Value) → Value.areCounted vs = true →
    ofMsgpackAll (toMsgpackAll vs) = Value.settledAll vs
  | [], _ => rfl
  | v :: vs, h => by
    obtain ⟨hv, hvs⟩ := Bool.and_eq_true_iff.mp h
    rw [toMsgpackAll, ofMsgpackAll, returned_eq v hv, returnedAll_eq vs hvs, Value.settledAll]

end

end Tarantool

/-! ### What a reader gets -/

namespace Value

variable {d : Destination}

theorem toBool_of_count {n : Int64} {k : UInt64} (h : (k.toNat : Int) = n.toInt) :
    (uint k).toBool.mapError Failure.withoutKind = (int n).toBool.mapError Failure.withoutKind := by
  have hzero : k = 0 ↔ n = 0 := by
    rw [← UInt64.toNat_inj, ← Int64.toInt_inj, ← h]
    exact Int.natCast_eq_zero.symm
  have hone : k = 1 ↔ n = 1 := by
    rw [← UInt64.toNat_inj, ← Int64.toInt_inj, ← h]
    exact Int.natCast_inj.symm
  simp only [toBool, hzero, hone]
  split_ifs <;> rfl

theorem toInstant_of_count {n : Int64} {k : UInt64} (h : (k.toNat : Int) = n.toInt) :
    (uint k).toInstant.mapError Failure.withoutKind =
      (int n).toInstant.mapError Failure.withoutKind := by
  simp only [toInstant, h]
  split <;> rfl

/-- An integer from zero on is read alike in both of its forms. -/
theorem read_of_count {n : Int64} {k : UInt64} (h : (k.toNat : Int) = n.toInt)
    (hd : d.scalar ≠ .value) :
    ((uint k).read d).mapError Failure.withoutKind =
      ((int n).read d).mapError Failure.withoutKind := by
  rw [read_of_not_isNull rfl, read_of_not_isNull rfl]
  cases hscalar : d.scalar with
  | integer t =>
    refine Failure.map_withoutKind_congr _ (toInteger_congr rfl rfl fun m _ _ => ?_)
    constructor
    · intro hm
      rw [hm.unique (.uint k (t := t)), h]
      exact .int n
    · intro hm
      rw [hm.unique (.int n (t := t)), ← h]
      exact .uint k
  | single =>
    rw [readScalar, readScalar, toSingle, toSingle, toDouble, toDouble, h]
  | double => rw [readScalar, readScalar, toDouble, toDouble, h]
  | bool => exact Failure.map_withoutKind_congr _ (toBool_of_count h)
  | string =>
    have hdisplay : (uint k).display = (int n).display := by
      rw [display, display, ← h]
      rfl
    exact congrArg (fun s => Except.ok (Datum.value (.text s))) hdisplay
  | bytes => rfl
  | time => exact Failure.map_withoutKind_congr _ (toInstant_of_count h)
  | value => exact absurd hscalar hd

/-- No scalar destination takes a tuple, whatever is in it. -/
theorem read_tuple (vs ws : List Value) (hd : d.scalar ≠ .value) :
    (tuple vs).read d = (tuple ws).read d := by
  rw [read_of_not_isNull rfl, read_of_not_isNull rfl]
  cases hscalar : d.scalar with
  | value => exact absurd hscalar hd
  | integer | single | double | bool | string | bytes | time => rfl

/-- A scalar destination cannot tell a value from what comes back of it. -/
theorem read_settled {v : Value} (hv : ∀ t, v ≠ .time t) (hd : d.scalar ≠ .value) :
    (v.settled.read d).mapError Failure.withoutKind =
      (v.read d).mapError Failure.withoutKind := by
  cases v with
  | int n =>
    rw [settled]
    rcases lt_or_ge n.toInt 0 with hn | hn
    · rw [ofCount_of_neg hn, Int64.ofInt_toInt]
    · rw [ofCount_of_nonneg hn]
      refine read_of_count ?_ hd
      have hfits : n.toInt.toNat < UInt64.size := by
        have := n.toInt_lt
        show n.toInt.toNat < 2 ^ 64
        omega
      rw [UInt64.toNat_ofNat_of_lt' hfits, Int.toNat_of_nonneg hn]
  | time t => exact absurd rfl (hv t)
  | tuple vs => rw [settled, read_tuple _ vs hd]
  | null | bool | uint | float | text | bytes => rfl

end Value

namespace Tarantool

/-- **Values survive the wire.**  A value of any depth comes back

* in the same shape, where an integer from zero on has become unsigned, a point in time has become
  the number of its whole seconds, and all else is as it was;
* so that sending it a second time changes nothing;
* and a value that is no point in time gives every scalar destination, whether or not it takes
  nulls, what it gave before, or the same failure up to the kind that a conversion names. -/
theorem returned_settled {v : Value} (hv : v.isCounted = true) :
    returned v = v.settled ∧ returned (returned v) = returned v ∧
    ((∀ t, v ≠ .time t) → ∀ d : Destination, d.scalar ≠ .value →
      ((returned v).read d).mapError Failure.withoutKind =
        (v.read d).mapError Failure.withoutKind) := by
  have hreturned : returned v = v.settled := returned_eq v hv
  refine ⟨hreturned, ?_, fun htime d hd => ?_⟩
  · rw [hreturned, returned, returned_eq _ (Value.isCounted_settled v), Value.settled_settled v hv]
  · rw [hreturned, Value.read_settled htime hd]

/-- So it is with a tuple that holds integers of both signs, a text and two points in time, one of
them before 1970. -/
theorem returned_settled_nested :
    let v := Value.tuple [.int 7, .tuple [.int (-7), .time ⟨1616969760, 5⟩], .text "é",
      .time ⟨-1, 500000000⟩]
    v.isCounted = true ∧
      returned v = .tuple [.uint 7, .tuple [.int (-7), .uint 1616969760], .text "é", .int (-1)] ∧
      returned (returned v) = returned v ∧
      ((returned (.int 7)).read ⟨.bytes, false⟩).mapError Failure.withoutKind =
        ((Value.int 7).read ⟨.bytes, false⟩).mapError Failure.withoutKind := by
  intro v
  -- both points in time are dates of the calendar
  have hafter : (Value.time ⟨1616969760, 5⟩).isCounted = true :=
    Value.isCounted_of_year (by decide) (by decide)
  have hbefore : (Value.time ⟨-1, 500000000⟩).isCounted = true :=
    Value.isCounted_of_year (by decide) (by decide)
  have hinner : (Value.tuple [.int (-7), .time ⟨1616969760, 5⟩]).isCounted = true := by
    rw [Value.isCounted, Value.areCounted, Value.areCounted, hafter]
    rfl
  have hcounted : v.isCounted = true := by
    rw [Value.isCounted, Value.areCounted, Value.areCounted, Value.areCounted, Value.areCounted,
      hinner, hbefore]
    rfl
  obtain ⟨hsettled, hagain, -⟩ := returned_settled hcounted
  refine ⟨hcounted, hsettled.trans ?_, hagain, ?_⟩
  · rfl
  · exact (returned_settled (v := .int 7) rfl).2.2 nofun ⟨.bytes, false⟩ nofun

end Tarantool

end SchemaMigration
