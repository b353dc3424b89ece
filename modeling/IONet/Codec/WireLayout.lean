import IONet.Codec.Decoder
import IONet.Core.ByteBufferLaws
import Mathlib.Data.List.ReduceOption

/-! The layout a field list prescribes: how many bytes a field occupies, which
typed read its raw value is, and the decoding loop as a walk over these slots. -/

namespace IONet.Codec

open IONet.Core Lib.Slots

def containerWidth (bitCount : UInt8) : Nat :=
  if bitCount ≤ 8 then 1 else if bitCount ≤ 16 then 2 else if bitCount ≤ 32 then 4 else 8

def wireWidth (f : Field) : Nat :=
  match f.type with
  | .int8 | .uint8 => 1
  | .int16 | .uint16 => 2
  | .int32 | .uint32 | .float32 => 4
  | .int64 | .uint64 | .float64 => 8
  | .bitfield => containerWidth (f.bitCount.getD 8)
  | .string => (f.stringSize.getD 0).toNat
  | .bytes => (f.arraySize.getD 0).toNat

/-- A string or byte block declares how long it is. -/
def Sized (f : Field) : Prop :=
  match f.type with
  | .string => f.stringSize.getD 0 ≠ 0
  | .bytes => f.arraySize.getD 0 ≠ 0
  | _ => True

instance (f : Field) : Decidable (Sized f) := by
  unfold Sized
  cases f.type <;> infer_instance

section

open ByteBufferReader Decoder

variable (host : Host)

def typedRead (f : Field) (order : ByteOrder) : ReadM Value :=
  match f.type with
  | .int8 => readInt8.map fun v => .int64 v.toInt64
  | .int16 => (readInt16 host order).map fun v => .int64 v.toInt64
  | .int32 => (readInt32 host order).map fun v => .int64 v.toInt64
  | .int64 => (readInt64 host order).map .int64
  | .uint8 => readUInt8.map fun v => .uint64 v.toUInt64
  | .uint16 => (readUInt16 host order).map fun v => .uint64 v.toUInt64
  | .uint32 => (readUInt32 host order).map fun v => .uint64 v.toUInt64
  | .uint64 => (readUInt64 host order).map .uint64
  | .float32 => (readFloat32 host order).map fun v => .double (Double.ofBits32 v)
  | .float64 => (readFloat64 host order).map fun v => .double (Double.ofBits64 v)
  | .bitfield => (readBits host (f.bitCount.getD 8) order).map .uint64
  | .string => (readString (f.stringSize.getD 0)).map .string
  | .bytes => (readBytes (f.arraySize.getD 0)).map .bytes

def flagsOf (f : Field) (raw : Value) : Option DecodedBitfield :=
  match f.type, raw with
  | .bitfield, .uint64 v => some (decodeBitfield host v f)
  | _, _ => none

def present (d : Decoder) (f : Field) (raw : Value) : DecodedField :=
  d.decodedField f (raw, flagsOf host f raw)

/-- The raw value that the bytes of a field hold. -/
def rawOn (f : Field) (order : ByteOrder) (bs : List UInt8) : Option Value :=
  if Sized f then (typedRead host f order ⟨bs, 0⟩).1.toOption else none

def fieldSlot (d : Decoder) (order : ByteOrder) (f : Field) : Slot UInt8 DecodedField where
  width := wireWidth f
  parse bs := (rawOn host f order bs).map (present host d f)

def passes (d : Decoder) (f : Field) (field : DecodedField) : Bool :=
  !d.options.validateConstraints || (validateConstraints field f).toBool

def checkedSlot (d : Decoder) (order : ByteOrder) (f : Field) : Slot UInt8 DecodedField where
  width := wireWidth f
  parse bs := ((rawOn host f order bs).map (present host d f)).filter (passes d f)

end

@[simp] theorem width_fieldSlot (host : Host) (d : Decoder) (order : ByteOrder) (f : Field) :
    (fieldSlot host d order f).width = wireWidth f := rfl

@[simp] theorem width_checkedSlot (host : Host) (d : Decoder) (order : ByteOrder) (f : Field) :
    (checkedSlot host d order f).width = wireWidth f := rfl

theorem caught_reads {m : ReadM α} {width : Nat} (h : m.Reads width) : (caught m).Reads width where
  fits r hr hfit := by
    obtain ⟨a, hwin, hm⟩ := h.fits r hr hfit
    cases hw : m ⟨window r.data r.pos width, 0⟩ with
    | mk res r' =>
      rw [hw] at hwin
      subst hwin
      exact ⟨a, by simp [caught, hw], by simp [caught, hm]⟩
  short r hr hlt := by
    obtain ⟨what, hm⟩ := h.short r hr hlt
    exact ⟨"Read error: " ++ what, by simp [caught, hm]⟩

theorem map_caught (m : ReadM α) (f : α → β) : (caught m).map f = caught (m.map f) := by
  funext r
  simp only [ReadM.map, caught]
  rcases m r with ⟨_ | a, r'⟩ <;> rfl

theorem map_map (m : ReadM α) (f : α → β) (g : β → γ) : (m.map f).map g = m.map (g ∘ f) := by
  funext r
  simp only [ReadM.map]
  rcases m r with ⟨_ | a, r'⟩ <;> rfl

variable (host : Host)

theorem readBits_reads (bitCount : UInt8) (order : ByteOrder) :
    (Decoder.readBits host bitCount order).Reads (containerWidth bitCount) := by
  unfold Decoder.readBits containerWidth
  split_ifs
  · exact ReadM.Reads.readUInt8.map _
  · exact (ReadM.Reads.readUInt16 host order).map _
  · exact (ReadM.Reads.readUInt32 host order).map _
  · exact ReadM.Reads.readUInt64 host order

theorem typedRead_reads (f : Field) (order : ByteOrder) :
    (typedRead host f order).Reads (wireWidth f) := by
  unfold typedRead wireWidth
  cases f.type with
  | int8 => exact ReadM.Reads.readInt8.map _
  | int16 => exact (ReadM.Reads.readInt16 host order).map _
  | int32 => exact (ReadM.Reads.readInt32 host order).map _
  | int64 => exact (ReadM.Reads.readInt64 host order).map _
  | uint8 => exact ReadM.Reads.readUInt8.map _
  | uint16 => exact (ReadM.Reads.readUInt16 host order).map _
  | uint32 => exact (ReadM.Reads.readUInt32 host order).map _
  | uint64 => exact (ReadM.Reads.readUInt64 host order).map _
  | float32 => exact (ReadM.Reads.readFloat32 host order).map _
  | float64 => exact (ReadM.Reads.readFloat64 host order).map _
  | bitfield => exact (readBits_reads host _ order).map _
  | string => exact (ReadM.Reads.readBlock _ _).map _
  | bytes => exact (ReadM.Reads.readBlock _ _).map _

variable {host}

theorem decodeField_of_sized {f : Field} (h : Sized f) (d : Decoder) (order : ByteOrder) :
    Decoder.decodeField host d f order =
      caught ((typedRead host f order).map (present host d f)) := by
  have hraw : Decoder.decodeRaw host f order =
      caught ((typedRead host f order).map fun raw => (raw, flagsOf host f raw)) := by
    unfold Decoder.decodeRaw typedRead
    unfold Sized at h
    cases htype : f.type with
    | string =>
      rw [htype] at h
      funext r
      simp [requiresSize, h, map_map, Function.comp_def, flagsOf, htype]
    | bytes =>
      rw [htype] at h
      funext r
      simp [requiresSize, h, map_map, Function.comp_def, flagsOf, htype]
    | _ => simp [map_map, Function.comp_def, flagsOf, htype]
  rw [Decoder.decodeField, hraw, map_caught, map_map]
  rfl

theorem decodeField_of_not_sized {f : Field} (h : ¬Sized f) (d : Decoder) (order : ByteOrder)
    (r : ByteBufferReader) :
    ∃ message, Decoder.decodeField host d f order r = (.error message, r) := by
  unfold Sized at h
  unfold Decoder.decodeField Decoder.decodeRaw
  cases htype : f.type with
  | string =>
    simp only [htype, not_not] at h
    exact ⟨"String field requires size", by simp [ReadM.map, requiresSize, h]⟩
  | bytes =>
    simp only [htype, not_not] at h
    exact ⟨"Bytes field requires size", by simp [ReadM.map, requiresSize, h]⟩
  | _ => simp [htype] at h

section

variable {d : Decoder} {order : ByteOrder} {f : Field} {field : DecodedField} {r : ByteBufferReader}

theorem rawOn_of_sized (h : Sized f) (bs : List UInt8) :
    rawOn host f order bs = (typedRead host f order ⟨bs, 0⟩).1.toOption := if_pos h

theorem rawOn_of_not_sized (h : ¬Sized f) (bs : List UInt8) : rawOn host f order bs = none :=
  if_neg h

theorem read_fieldSlot_iff (hr : r.Valid) :
    (fieldSlot host d order f).read r.data r.pos = some field ↔
      Sized f ∧ r.pos + wireWidth f ≤ r.size ∧ ∃ raw,
        typedRead host f order r = (.ok raw, { r with pos := r.pos + wireWidth f }) ∧
          field = present host d f raw := by
  by_cases hfit : r.pos + wireWidth f ≤ r.size
  · obtain ⟨raw, hwin, hraw⟩ := (typedRead_reads host f order).fits r hr hfit
    rw [read_eq_parse hfit]
    change (rawOn host f order (window r.data r.pos (wireWidth f))).map _ = _ ↔ _
    by_cases hs : Sized f
    · simp [rawOn_of_sized hs, hwin, hraw, hs, hfit, Except.toOption, eq_comm]
    · simp [rawOn_of_not_sized hs, hs]
  · have hlt : r.data.length < r.pos + (fieldSlot host d order f).width := Nat.lt_of_not_le hfit
    simp [read_eq_none hlt, hfit]

theorem decodeField_of_read (hr : r.Valid)
    (h : (fieldSlot host d order f).read r.data r.pos = some field) :
    Decoder.decodeField host d f order r = (.ok field, { r with pos := r.pos + wireWidth f }) := by
  obtain ⟨hs, -, raw, hraw, rfl⟩ := (read_fieldSlot_iff hr).mp h
  simp [decodeField_of_sized hs, caught, ReadM.map, hraw]

theorem decodeField_of_read_none (hr : r.Valid)
    (h : (fieldSlot host d order f).read r.data r.pos = none) :
    ∃ message, Decoder.decodeField host d f order r = (.error message, r) := by
  by_cases hs : Sized f
  · rw [decodeField_of_sized hs]
    have hreads := typedRead_reads host f order
    apply (caught_reads (hreads.map (present host d f))).short r hr
    by_contra hlt
    obtain ⟨raw, -, hraw⟩ := hreads.fits r hr (Nat.le_of_not_lt hlt)
    have hsome := (read_fieldSlot_iff (d := d) hr).mpr ⟨hs, Nat.le_of_not_lt hlt, raw, hraw, rfl⟩
    rw [h] at hsome
    cases hsome
  · exact decodeField_of_not_sized hs d order r

theorem read_checkedSlot (data : List UInt8) (p : Nat) :
    (checkedSlot host d order f).read data p =
      ((fieldSlot host d order f).read data p).filter (passes d f) := by
  unfold Slot.read
  by_cases hfit : p + wireWidth f ≤ data.length
  · simp [checkedSlot, fieldSlot, hfit]
  · simp [checkedSlot, fieldSlot, hfit]

theorem checkedSlot_of_not_validate (h : d.options.validateConstraints = false) :
    checkedSlot host d order f = fieldSlot host d order f := by
  have hpass : ∀ field : Option DecodedField, field.filter (passes d f) = field := by
    intro field
    cases field <;> simp [passes, h]
  simp [checkedSlot, fieldSlot, hpass]

end

section

open Decoder

variable {d : Decoder} {order : ByteOrder}

theorem check_eq_ok_iff (f : Field) (field : DecodedField) :
    (if d.options.validateConstraints then validateConstraints field f else .ok ()) = .ok () ↔
      passes d f field := by
  unfold passes
  cases d.options.validateConstraints with
  | false => simp
  | true => cases validateConstraints field f <;> simp [Except.toBool]

theorem decodeFields_of_scan (fs : List Field) {r : ByteBufferReader} (hr : r.Valid)
    (result : DecodedPacket) {fields : List DecodedField} {q : Nat}
    (h : scan (fs.map (checkedSlot host d order)) r.data r.pos = some (fields, q)) :
    decodeFields host d order fs result r =
      (.ok (fields.foldl DecodedPacket.addField result), { r with pos := q }) := by
  induction fs generalizing r result fields with
  | nil =>
    simp only [List.map_nil, scan, Option.some.injEq, Prod.mk.injEq] at h
    obtain ⟨rfl, rfl⟩ := h
    rfl
  | cons f fs ih =>
    rw [List.map_cons, scan] at h
    cases hread : (checkedSlot host d order f).read r.data r.pos with
    | none => simp [hread] at h
    | some field =>
      simp only [hread, Option.map_eq_some_iff, Prod.exists, Prod.mk.injEq] at h
      obtain ⟨fields', q', hscan, rfl, rfl⟩ := h
      have hfit := read_le hread
      rw [read_checkedSlot, Option.filter_eq_some_iff] at hread
      have hcheck := (check_eq_ok_iff f field).mpr hread.2
      simp only [decodeFields, decodeField_of_read hr hread.1, hcheck, List.foldl_cons]
      exact ih (hr.at hfit) (result.addField field) hscan

theorem decodeFields_of_scan_none (hstop : d.options.stopOnError = true) (fs : List Field)
    {r : ByteBufferReader} (hr : r.Valid) (result : DecodedPacket)
    (h : scan (fs.map (checkedSlot host d order)) r.data r.pos = none) :
    ∃ e r', decodeFields host d order fs result r = (.error e, r') := by
  induction fs generalizing r result with
  | nil => simp [scan] at h
  | cons f fs ih =>
    rw [List.map_cons, scan] at h
    cases hfield : (fieldSlot host d order f).read r.data r.pos with
    | none =>
      obtain ⟨message, hmessage⟩ := decodeField_of_read_none hr hfield
      simp [decodeFields, hmessage, hstop]
    | some field =>
      have hfit := read_le hfield
      rw [read_checkedSlot, hfield] at h
      by_cases hpass : passes d f field = true
      · have hcheck := (check_eq_ok_iff f field).mpr hpass
        simp only [Option.filter_some, hpass, if_true, Option.map_eq_none_iff] at h
        simp only [decodeFields, decodeField_of_read hr hfield, hcheck]
        exact ih (hr.at hfit) (result.addField field) h
      · have hcheck := mt (check_eq_ok_iff f field).mp hpass
        simp only [decodeFields, decodeField_of_read hr hfield]
        split
        · simp [hstop]
        · contradiction

/-- Strict decoding is a scan of the checked slots. -/
theorem decodeFields_strict_iff (hstop : d.options.stopOnError = true) (fs : List Field)
    {r : ByteBufferReader} (hr : r.Valid) (result packet : DecodedPacket) (r' : ByteBufferReader) :
    decodeFields host d order fs result r = (.ok packet, r') ↔ ∃ fields q,
      scan (fs.map (checkedSlot host d order)) r.data r.pos = some (fields, q) ∧
        packet = fields.foldl DecodedPacket.addField result ∧ r' = { r with pos := q } := by
  cases hscan : scan (fs.map (checkedSlot host d order)) r.data r.pos with
  | none =>
    obtain ⟨e, r'', he⟩ := decodeFields_of_scan_none hstop fs hr result hscan
    simp [he]
  | some res =>
    obtain ⟨fields, q⟩ := res
    rw [decodeFields_of_scan fs hr result hscan]
    constructor
    · rintro ⟨⟩
      exact ⟨fields, q, rfl, rfl, rfl⟩
    · rintro ⟨_, _, ⟨⟩, rfl, rfl⟩
      rfl

/-- Lenient decoding is a sweep of the unchecked slots. -/
theorem decodeFields_lenient (hstop : d.options.stopOnError = false) (fs : List Field)
    {r : ByteBufferReader} (hr : r.Valid) (result : DecodedPacket) :
    decodeFields host d order fs result r =
      (.ok ((sweep (fs.map (fieldSlot host d order)) r.data r.pos).1.reduceOption.foldl
        DecodedPacket.addField result),
      { r with pos := (sweep (fs.map (fieldSlot host d order)) r.data r.pos).2 }) := by
  induction fs generalizing r result with
  | nil => rfl
  | cons f fs ih =>
    rw [List.map_cons, sweep]
    cases hread : (fieldSlot host d order f).read r.data r.pos with
    | none =>
      obtain ⟨message, hmessage⟩ := decodeField_of_read_none hr hread
      simpa [decodeFields, hmessage, hstop, List.reduceOption_cons_of_none] using ih hr result
    | some field =>
      have hfit := read_le hread
      have hnext := ih (hr.at hfit) (result.addField field)
      simp only [decodeFields, decodeField_of_read hr hread, hstop, List.reduceOption_cons_of_some]
      split <;> simpa using hnext

end

end IONet.Codec
