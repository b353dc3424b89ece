import IONet.Codec.Scaling

namespace IONet.Codec

open IONet.Core Decoder ByteBufferReader

def Integral : DataType → Prop
  | .float32 | .float64 | .string | .bytes => False
  | _ => True

def wireInteger (host : Host) (f : Field) (order : ByteOrder) : ReadM (Option Int) :=
  match f.type with
  | .int8 => readInt8.map fun v => some v.toInt
  | .int16 => (readInt16 host order).map fun v => some v.toInt
  | .int32 => (readInt32 host order).map fun v => some v.toInt
  | .int64 => (readInt64 host order).map fun v => some v.toInt
  | .uint8 => readUInt8.map fun v => some v.toNat
  | .uint16 => (readUInt16 host order).map fun v => some v.toNat
  | .uint32 => (readUInt32 host order).map fun v => some v.toNat
  | .uint64 => (readUInt64 host order).map fun v => some v.toNat
  | .bitfield => (readBits host (f.bitCount.getD 8) order).map fun v => some v.toNat
  | _ => fun reader => (.ok none, reader)

inductive HoldsInteger : Value → Int → Prop
  | int64 {v : Int64} {n : Int} (h : v.toInt = n) : HoldsInteger (.int64 v) n
  | uint64 {v : UInt64} {n : Int} (h : (v.toNat : Int) = n) : HoldsInteger (.uint64 v) n

def Unscaled (d : Decoder) (f : Field) : Prop := d.options.applyScaling = false ∨ f.scaling = none

theorem scaledValue_of_unscaled {d : Decoder} {f : Field} (h : Unscaled d f) (raw : Value) :
    d.scaledValue f raw = raw := by
  unfold scaledValue
  rcases h with h | h
  · rw [h]
  · rw [h]
    cases d.options.applyScaling <;> rfl

theorem fst_map {m : ReadM α} {r : ByteBufferReader} {a : α} (h : (m r).1 = .ok a) (f : α → β) :
    (m.map f r).1 = .ok (f a) := by
  cases hm : m r with
  | mk res r' =>
    rw [hm] at h
    cases h
    rw [ReadM.map_eq hm]

section

variable {host : Host} {d : Decoder} {f : Field} {order : ByteOrder} {r : ByteBufferReader}

theorem holds_of_decodeRaw (hintegral : Integral f.type) {raw : Value × Option DecodedBitfield}
    (h : (decodeRaw host f order r).1 = .ok raw) :
    ∃ n, (wireInteger host f order r).1 = .ok (some n) ∧ HoldsInteger raw.1 n := by
  unfold decodeRaw at h
  unfold wireInteger
  cases htype : f.type with
  | float32 | float64 | string | bytes =>
    rw [htype] at hintegral
    exact hintegral.elim
  | _ =>
    rw [htype] at h
    obtain ⟨a, ha, rfl⟩ := ReadM.ok_of_map (ok_of_caught h)
    exact ⟨_, fst_map ha _, by constructor; simp⟩

theorem holds_of_decodeField (hintegral : Integral f.type) (hunscaled : Unscaled d f)
    {field : DecodedField} (h : (decodeField host d f order r).1 = .ok field) :
    ∃ n, (wireInteger host f order r).1 = .ok (some n) ∧ HoldsInteger field.rawValue n ∧
      field.hasScaling = false := by
  obtain ⟨raw, hraw, rfl⟩ := ReadM.ok_of_map h
  obtain ⟨n, hn, hholds⟩ := holds_of_decodeRaw hintegral hraw
  refine ⟨n, hn, hholds, ?_⟩
  simp [DecodedField.hasScaling, decodedField, scaledValue_of_unscaled hunscaled]

end

/-- A number is either returned as it is or not returned. -/
structure NumberKept {T : Type} (toInt : T → Int) (n : Int) (result : Option T) : Prop where
  returned : ∀ v, result = some v → toInt v = n
  absent : (∀ v, toInt v ≠ n) → result = none

theorem numberKept_some {T : Type} {toInt : T → Int} {n : Int} {v : T} :
    NumberKept toInt n (some v) ↔ toInt v = n := by
  constructor
  · intro h
    exact h.returned v rfl
  · intro h
    refine ⟨fun w hw => ?_, fun hall => absurd h (hall v)⟩
    rw [← Option.some.inj hw, h]

theorem toInt_toInt64_iff (v : UInt64) : v.toInt64.toInt = v.toNat ↔ v.toNat < 2 ^ 63 := by
  have hlt := v.toNat_lt
  rw [Int64.toInt, UInt64.toBitVec_toInt64, BitVec.toInt_eq_toNat_cond, UInt64.toNat_toBitVec]
  split_ifs <;> omega

theorem toNat_toUInt64_iff (v : Int64) : (v.toUInt64.toNat : Int) = v.toInt ↔ 0 ≤ v.toInt := by
  have hlt := v.toUInt64.toNat_lt
  rw [Int64.toInt, BitVec.toInt_eq_toNat_cond]
  change (v.toBitVec.toNat : Int) = _ ↔ _
  split_ifs <;> omega

section

variable {field : DecodedField} {n : Int} (h : HoldsInteger field.rawValue n)
  (hplain : field.hasScaling = false)

include h hplain

theorem numberKept_int64_iff (outside : Double → Int64) :
    NumberKept Int64.toInt n (field.as (Requested.int64 outside)) ↔ n < 2 ^ 63 := by
  rw [DecodedField.as, hplain]
  generalize field.rawValue = raw at h
  cases h with
  | @int64 v _ hv =>
    change NumberKept Int64.toInt n (some v) ↔ n < 2 ^ 63
    have hlt := v.toInt_lt
    rw [numberKept_some, hv, eq_self, true_iff, ← hv]
    exact hlt
  | @uint64 v _ hv =>
    change NumberKept Int64.toInt n (some v.toInt64) ↔ n < 2 ^ 63
    rw [numberKept_some, ← hv, toInt_toInt64_iff]
    omega

theorem numberKept_uint64_iff (outside : Double → UInt64) :
    NumberKept (fun v => v.toNat) n (field.as (Requested.uint64 outside)) ↔ 0 ≤ n := by
  rw [DecodedField.as, hplain]
  generalize field.rawValue = raw at h
  cases h with
  | @int64 v _ hv =>
    change NumberKept (fun v => v.toNat) n (some v.toUInt64) ↔ 0 ≤ n
    rw [numberKept_some, ← hv]
    exact toNat_toUInt64_iff v
  | @uint64 v _ hv =>
    change NumberKept (fun v => v.toNat) n (some v) ↔ 0 ≤ n
    rw [numberKept_some]
    omega

end

theorem get_of_field {T : Type} (t : Requested T) {packet : DecodedPacket} {name : String}
    {field : DecodedField} (h : packet.field name = some field) :
    packet.get t name = field.as t := by
  rw [DecodedPacket.get, h, Option.bind_some]

/-- Both accesses cast between the signed and the unsigned word without a look
at the number: it is kept as long as the type asked for has it. -/
theorem number_kept_iff (host : Host) {d : Decoder} {f : Field} (hintegral : Integral f.type)
    (hunscaled : Unscaled d f) {order : ByteOrder} {r : ByteBufferReader} {field : DecodedField}
    (h : (decodeField host d f order r).1 = .ok field) (outside : Double → Int64)
    (outside' : Double → UInt64) :
    ∃ n, (wireInteger host f order r).1 = .ok (some n) ∧
      (NumberKept Int64.toInt n (field.as (Requested.int64 outside)) ↔ n < 2 ^ 63) ∧
      (NumberKept (fun v => v.toNat) n (field.as (Requested.uint64 outside')) ↔ 0 ≤ n) ∧
      ∀ (packet : DecodedPacket) (name : String), packet.field name = some field →
        (NumberKept Int64.toInt n (packet.get (Requested.int64 outside) name) ↔ n < 2 ^ 63) ∧
        (NumberKept (fun v => v.toNat) n (packet.get (Requested.uint64 outside') name) ↔
          0 ≤ n) := by
  obtain ⟨n, hn, hholds, hplain⟩ := holds_of_decodeField hintegral hunscaled h
  have hsigned := numberKept_int64_iff hholds hplain outside
  have hunsigned := numberKept_uint64_iff hholds hplain outside'
  refine ⟨n, hn, hsigned, hunsigned, fun packet name hfield => ?_⟩
  rw [get_of_field _ hfield, get_of_field _ hfield]
  exact ⟨hsigned, hunsigned⟩

def temperature : Field where
  name := "temperature"
  type := .int8

theorem number_kept_iff_warm : ∃ field,
    (decodeField .x86 { schema := {} } temperature .big ⟨[21], 0⟩).1 = .ok field ∧
      NumberKept (fun v => v.toNat) 21 (field.as (Requested.uint64 fun _ => 0)) := by
  have hdecode : (decodeField .x86 { schema := {} } temperature .big ⟨[21], 0⟩).1 =
      .ok (decodedField { schema := {} } temperature (.int64 21, none)) := rfl
  obtain ⟨n, hn, -, hunsigned, -⟩ :=
    number_kept_iff .x86 (f := temperature) trivial (.inr rfl) hdecode (fun _ => 0) (fun _ => 0)
  cases hn
  exact ⟨_, hdecode, hunsigned.mpr (by decide)⟩

/-- One degree below zero is a large number asked for as unsigned, and the top
half of the unsigned range is negative asked for as signed. -/
theorem below_zero_wraps :
    (∃ field, (decodeField .x86 { schema := {} } temperature .big ⟨[0xFF], 0⟩).1 = .ok field ∧
      (wireInteger .x86 temperature .big ⟨[0xFF], 0⟩).1 = .ok (some (-1)) ∧
      ∃ v, field.as (Requested.uint64 fun _ => 0) = some v ∧ v.toNat = 2 ^ 64 - 1 ∧
        ¬NumberKept (fun v => v.toNat) (-1) (field.as (Requested.uint64 fun _ => 0))) ∧
    ∃ field, (decodeField .s390x { schema := {} } { name := "counter", type := .uint64 } .big
        ⟨[0x80, 0, 0, 0, 0, 0, 0, 0], 0⟩).1 = .ok field ∧
      ∃ v, field.as (Requested.int64 fun _ => 0) = some v ∧ v.toInt = -2 ^ 63 := by
  refine ⟨⟨_, rfl, rfl, _, rfl, by decide, fun h => ?_⟩, _, rfl, _, rfl, by decide⟩
  exact absurd (h.returned _ rfl) (by decide)

end IONet.Codec
