import IONet.Core.ByteBufferLaws

namespace IONet.Core

open Endian Lib.Bytes Lib.Slots

def ByteOrder.resolve (host : Host) : ByteOrder → Endian
  | .big => .big
  | .little => .little
  | .native => host.native

def wireBytes : Endian → Nat → Nat → List UInt8
  | .big => beBytes
  | .little => leBytes

def wireVal : Endian → List UInt8 → Nat
  | .big => beVal
  | .little => leVal

@[simp] theorem length_wireBytes (e : Endian) (n v : Nat) : (wireBytes e n v).length = n := by
  cases e <;> simp [wireBytes]

theorem wireVal_wireBytes {e : Endian} {n v : Nat} (h : v < 256 ^ n) :
    wireVal e (wireBytes e n v) = v := by
  cases e with
  | big => simp [wireVal, wireBytes, beVal_beBytes, Nat.mod_eq_of_lt h]
  | little => simp [wireVal, wireBytes, leVal_leBytes, Nat.mod_eq_of_lt h]

theorem wireBytes_wireVal (e : Endian) (bs : List UInt8) :
    wireBytes e bs.length (wireVal e bs) = bs := by
  cases e with
  | big => simp [wireVal, wireBytes, beBytes_beVal]
  | little => simp [wireVal, wireBytes, leBytes_leVal]

/-- What a little-endian host makes of the bytes on either side. -/
def Host.mirror (host : Host) (bs : List UInt8) : List UInt8 :=
  match host.native with
  | .big => bs
  | .little => bs.reverse

theorem Host.mirror_eq_self_iff (host : Host) (bs : List UInt8) :
    host.mirror bs = bs ↔ host.native = .big ∨ bs.reverse = bs := by
  unfold Host.mirror
  cases host.native <;> simp

@[simp] theorem Host.mirror_mirror (host : Host) (bs : List UInt8) :
    host.mirror (host.mirror bs) = bs := by
  unfold Host.mirror
  cases host.native <;> simp

@[simp] theorem Host.length_mirror (host : Host) (bs : List UInt8) :
    (host.mirror bs).length = bs.length := by
  unfold Host.mirror
  cases host.native <;> simp

theorem convert_eq (host : Host) (byteSwap : α → α) (value : α) (order : ByteOrder) :
    convert host byteSwap value order =
      if order.resolve host = host.native then value else byteSwap value := by
  cases order with
  | native => simp [convert, ByteOrder.resolve]
  | big => cases h : host.native <;> simp [convert, needsSwap, ByteOrder.resolve, h]
  | little => cases h : host.native <;> simp [convert, needsSwap, ByteOrder.resolve, h]

section

variable {toNat : α → Nat} {byteSwap : α → α} {n : Nat}

theorem beBytes_convert (hswap : ∀ x, leBytes n (toNat (byteSwap x)) = beBytes n (toNat x))
    (host : Host) (x : α) (order : ByteOrder) :
    beBytes n (toNat (convert host byteSwap x order)) =
      host.mirror (wireBytes (order.resolve host) n (toNat x)) := by
  rw [convert_eq, Host.mirror]
  cases order.resolve host <;> cases host.native <;> simp [wireBytes, beBytes, hswap]

theorem toNat_convert (hlt : ∀ x, toNat x < 256 ^ n)
    (hswap : ∀ x, leBytes n (toNat (byteSwap x)) = beBytes n (toNat x))
    (host : Host) {x : α} {bs : List UInt8} (hbs : bs.length = n) (hx : toNat x = beVal bs)
    (order : ByteOrder) :
    toNat (convert host byteSwap x order) = wireVal (order.resolve host) (host.mirror bs) := by
  have hle : toNat (byteSwap x) = leVal bs := by
    have h := congrArg leVal (hswap x)
    rwa [leVal_leBytes, Nat.mod_eq_of_lt (hlt _), hx, ← hbs, beBytes_beVal] at h
  rw [convert_eq, Host.mirror]
  cases order.resolve host <;> cases host.native <;> simp [wireVal, hle, hx, beVal]

end

section

variable (host : Host) (w : ByteBufferWriter) (order : ByteOrder)

theorem buffer_writeUInt16 (v : UInt16) : (w.writeUInt16 host v order).buffer =
    w.buffer ++ host.mirror (wireBytes (order.resolve host) 2 v.toNat) := by
  rw [← beBytes_convert leBytes_byteSwap16, ← pushed16]
  rfl

theorem buffer_writeUInt32 (v : UInt32) : (w.writeUInt32 host v order).buffer =
    w.buffer ++ host.mirror (wireBytes (order.resolve host) 4 v.toNat) := by
  rw [← beBytes_convert leBytes_byteSwap32, ← pushed32]
  rfl

theorem buffer_writeUInt64 (v : UInt64) : (w.writeUInt64 host v order).buffer =
    w.buffer ++ host.mirror (wireBytes (order.resolve host) 8 v.toNat) := by
  rw [← beBytes_convert leBytes_byteSwap64, ByteBufferWriter.writeUInt64, pushed64]
  rfl

end

section

variable (host : Host) (order : ByteOrder) {r : ByteBufferReader}

theorem readUInt16_eq (hr : r.Valid) (hfit : r.pos + 2 ≤ r.size) :
    ∃ v, ByteBufferReader.readUInt16 host order r = (.ok v, { r with pos := r.pos + 2 }) ∧
      v.toNat = wireVal (order.resolve host) (host.mirror (window r.data r.pos 2)) := by
  refine ⟨_, ByteBufferReader.readFixed_eq hr _ hfit, ?_⟩
  apply toNat_convert UInt16.toNat_lt leBytes_byteSwap16 host (length_window hfit)
  rw [assembled16, ← ByteBufferReader.ofFn_bytesAt hfit]
  simp

theorem readUInt32_eq (hr : r.Valid) (hfit : r.pos + 4 ≤ r.size) :
    ∃ v, ByteBufferReader.readUInt32 host order r = (.ok v, { r with pos := r.pos + 4 }) ∧
      v.toNat = wireVal (order.resolve host) (host.mirror (window r.data r.pos 4)) := by
  refine ⟨_, ByteBufferReader.readFixed_eq hr _ hfit, ?_⟩
  apply toNat_convert UInt32.toNat_lt leBytes_byteSwap32 host (length_window hfit)
  rw [assembled32, ← ByteBufferReader.ofFn_bytesAt hfit]
  simp

theorem readUInt64_eq (hr : r.Valid) (hfit : r.pos + 8 ≤ r.size) :
    ∃ v, ByteBufferReader.readUInt64 host order r = (.ok v, { r with pos := r.pos + 8 }) ∧
      v.toNat = wireVal (order.resolve host) (host.mirror (window r.data r.pos 8)) := by
  refine ⟨_, ByteBufferReader.readFixed_eq hr _ hfit, ?_⟩
  apply toNat_convert UInt64.toNat_lt leBytes_byteSwap64 host (length_window hfit)
  rw [assembled64, ← ByteBufferReader.ofFn_bytesAt hfit]

end

inductive Scalar
  | int16 | int32 | int64 | uint16 | uint32 | uint64 | float32 | float64
  deriving DecidableEq, Repr

namespace Scalar

/-- A float is given by its bit pattern. -/
def Val : Scalar → Type
  | .int16 => Int16
  | .int32 => Int32
  | .int64 => Int64
  | .uint16 => UInt16
  | .uint32 | .float32 => UInt32
  | .uint64 | .float64 => UInt64

def width : Scalar → Nat
  | .int16 | .uint16 => 2
  | .int32 | .uint32 | .float32 => 4
  | .int64 | .uint64 | .float64 => 8

def pattern : (s : Scalar) → s.Val → Nat
  | .int16, (v : Int16) => (v.toInt % 2 ^ 16).toNat
  | .int32, (v : Int32) => (v.toInt % 2 ^ 32).toNat
  | .int64, (v : Int64) => (v.toInt % 2 ^ 64).toNat
  | .uint16, (v : UInt16) => v.toNat
  | .uint32, (v : UInt32) | .float32, (v : UInt32) => v.toNat
  | .uint64, (v : UInt64) | .float64, (v : UInt64) => v.toNat

def write (host : Host) (w : ByteBufferWriter) : (s : Scalar) → s.Val → ByteOrder → ByteBufferWriter
  | .int16, v, order => w.writeInt16 host v order
  | .int32, v, order => w.writeInt32 host v order
  | .int64, v, order => w.writeInt64 host v order
  | .uint16, v, order => w.writeUInt16 host v order
  | .uint32, v, order => w.writeUInt32 host v order
  | .uint64, v, order => w.writeUInt64 host v order
  | .float32, v, order => w.writeFloat32 host v order
  | .float64, v, order => w.writeFloat64 host v order

def read (host : Host) : (s : Scalar) → ByteOrder → ReadM s.Val
  | .int16, order => ByteBufferReader.readInt16 host order
  | .int32, order => ByteBufferReader.readInt32 host order
  | .int64, order => ByteBufferReader.readInt64 host order
  | .uint16, order => ByteBufferReader.readUInt16 host order
  | .uint32, order => ByteBufferReader.readUInt32 host order
  | .uint64, order => ByteBufferReader.readUInt64 host order
  | .float32, order => ByteBufferReader.readFloat32 host order
  | .float64, order => ByteBufferReader.readFloat64 host order

theorem toNat_emod_toInt (b : BitVec n) : (b.toInt % 2 ^ n).toNat = b.toNat := by
  have hcast : ((2 ^ n : Nat) : Int) = 2 ^ n := by norm_cast
  rw [BitVec.toInt_eq_toNat_bmod, ← hcast, Int.bmod_emod]
  exact_mod_cast Nat.mod_eq_of_lt b.isLt

theorem pattern_int16 (v : Val .int16) : pattern .int16 v = (Int16.toUInt16 v).toNat :=
  toNat_emod_toInt (Int16.toBitVec v)

theorem pattern_int32 (v : Val .int32) : pattern .int32 v = (Int32.toUInt32 v).toNat :=
  toNat_emod_toInt (Int32.toBitVec v)

theorem pattern_int64 (v : Val .int64) : pattern .int64 v = (Int64.toUInt64 v).toNat :=
  toNat_emod_toInt (Int64.toBitVec v)

theorem pattern_lt (s : Scalar) (v : s.Val) : s.pattern v < 256 ^ s.width := by
  cases s with
  | int16 => exact (pattern_int16 v).trans_lt (UInt16.toNat_lt _)
  | int32 => exact (pattern_int32 v).trans_lt (UInt32.toNat_lt _)
  | int64 => exact (pattern_int64 v).trans_lt (UInt64.toNat_lt _)
  | uint16 => exact UInt16.toNat_lt v
  | uint32 | float32 => exact UInt32.toNat_lt v
  | uint64 | float64 => exact UInt64.toNat_lt v

theorem pattern_injective (s : Scalar) : Function.Injective s.pattern := by
  intro v v' h
  cases s with
  | int16 =>
    rw [pattern_int16, pattern_int16, UInt16.toNat_inj] at h
    exact congrArg UInt16.toInt16 h
  | int32 =>
    rw [pattern_int32, pattern_int32, UInt32.toNat_inj] at h
    exact congrArg UInt32.toInt32 h
  | int64 =>
    rw [pattern_int64, pattern_int64, UInt64.toNat_inj] at h
    exact congrArg UInt64.toInt64 h
  | uint16 => exact UInt16.toNat_inj.mp h
  | uint32 | float32 => exact UInt32.toNat_inj.mp h
  | uint64 | float64 => exact UInt64.toNat_inj.mp h

def wire (host : Host) (s : Scalar) (v : s.Val) (order : ByteOrder) : List UInt8 :=
  wireBytes (order.resolve host) s.width (s.pattern v)

@[simp] theorem length_wire (host : Host) (s : Scalar) (v : s.Val) (order : ByteOrder) :
    (s.wire host v order).length = s.width := length_wireBytes _ _ _

theorem wireVal_wire (host : Host) (s : Scalar) (v : s.Val) (order : ByteOrder) :
    wireVal (order.resolve host) (s.wire host v order) = s.pattern v :=
  wireVal_wireBytes (s.pattern_lt v)

theorem buffer_write (host : Host) (w : ByteBufferWriter) (s : Scalar) (v : s.Val)
    (order : ByteOrder) : (s.write host w v order).buffer =
      w.buffer ++ host.mirror (s.wire host v order) := by
  unfold wire
  cases s with
  | int16 =>
    rw [pattern_int16]
    exact buffer_writeUInt16 host w order (Int16.toUInt16 v)
  | int32 =>
    rw [pattern_int32]
    exact buffer_writeUInt32 host w order (Int32.toUInt32 v)
  | int64 =>
    rw [pattern_int64]
    exact buffer_writeUInt64 host w order (Int64.toUInt64 v)
  | uint16 => exact buffer_writeUInt16 host w order v
  | uint32 | float32 => exact buffer_writeUInt32 host w order v
  | uint64 | float64 => exact buffer_writeUInt64 host w order v

theorem read_eq (host : Host) (s : Scalar) (order : ByteOrder) {r : ByteBufferReader}
    (hr : r.Valid) (hfit : r.pos + s.width ≤ r.size) :
    ∃ v, s.read host order r = (.ok v, { r with pos := r.pos + s.width }) ∧
      s.pattern v = wireVal (order.resolve host) (host.mirror (window r.data r.pos s.width)) := by
  cases s with
  | int16 =>
    obtain ⟨v, hread, hv⟩ := readUInt16_eq host order hr hfit
    exact ⟨v.toInt16, ReadM.map_eq hread _, (pattern_int16 v.toInt16).trans hv⟩
  | int32 =>
    obtain ⟨v, hread, hv⟩ := readUInt32_eq host order hr hfit
    exact ⟨v.toInt32, ReadM.map_eq hread _, (pattern_int32 v.toInt32).trans hv⟩
  | int64 =>
    obtain ⟨v, hread, hv⟩ := readUInt64_eq host order hr hfit
    exact ⟨v.toInt64, ReadM.map_eq hread _, (pattern_int64 v.toInt64).trans hv⟩
  | uint16 => exact readUInt16_eq host order hr hfit
  | uint32 | float32 => exact readUInt32_eq host order hr hfit
  | uint64 | float64 => exact readUInt64_eq host order hr hfit

end Scalar

theorem write_in_order_iff (host : Host) (w : ByteBufferWriter) (s : Scalar) (v : s.Val)
    (order : ByteOrder) : (s.write host w v order).buffer = w.buffer ++ s.wire host v order ↔
      host.native = .big ∨ (s.wire host v order).reverse = s.wire host v order := by
  rw [Scalar.buffer_write, List.append_cancel_left_eq, Host.mirror_eq_self_iff]

theorem wireVal_injOn (e : Endian) {as bs : List UInt8} (hlen : as.length = bs.length)
    (h : wireVal e as = wireVal e bs) : as = bs := by
  rw [← wireBytes_wireVal e as, ← wireBytes_wireVal e bs, h, hlen]

theorem read_in_order_iff (host : Host) (s : Scalar) (order : ByteOrder) {r : ByteBufferReader}
    (hr : r.Valid) (hfit : r.pos + s.width ≤ r.size) :
    ∃ v, s.read host order r = (.ok v, { r with pos := r.pos + s.width }) ∧
      (s.pattern v = wireVal (order.resolve host) (window r.data r.pos s.width) ↔
        host.native = .big ∨
          (window r.data r.pos s.width).reverse = window r.data r.pos s.width) := by
  obtain ⟨v, hread, hv⟩ := s.read_eq host order hr hfit
  refine ⟨v, hread, ?_⟩
  rw [hv, ← Host.mirror_eq_self_iff]
  exact ⟨wireVal_injOn _ (by simp), congrArg _⟩

theorem Host.mirror_of_ne {host host' : Host} (h : host'.native ≠ host.native) (bs : List UInt8) :
    host'.mirror (host.mirror bs) = bs.reverse := by
  unfold Host.mirror
  cases hhost : host.native <;> cases hhost' : host'.native <;> simp_all

theorem read_other_host_iff {host host' : Host} (hne : host'.native ≠ host.native) (s : Scalar)
    {order : ByteOrder} (horder : order ≠ .native) (v : s.Val) :
    ∃ v' r', s.read host' order ⟨(s.write host {} v order).data, 0⟩ = (.ok v', r') ∧
      (v' = v ↔ (s.wire host v order).reverse = s.wire host v order) := by
  have hdata : (s.write host {} v order).data = host.mirror (s.wire host v order) := by
    rw [ByteBufferWriter.data, s.buffer_write]
    rfl
  have hlen : (s.write host {} v order).data.length = s.width := by simp [hdata]
  have hwidth : s.width < 2 ^ 63 := by cases s <;> decide
  have hr : (ByteBufferReader.mk (s.write host {} v order).data 0).Valid := .mk_zero (by omega)
  obtain ⟨v', hread, hv'⟩ := s.read_eq host' order hr (by simp [ByteBufferReader.size, hlen])
  have hresolve : order.resolve host' = order.resolve host := by
    cases order with
    | native => exact absurd rfl horder
    | _ => rfl
  have hwindow := window_self (s.write host {} v order).data
  rw [hlen, hdata] at hwindow
  rw [hdata, hwindow, hresolve, Host.mirror_of_ne hne] at hv'
  refine ⟨v', _, hread, ?_⟩
  rw [← s.pattern_injective.eq_iff, hv']
  have hval := s.wireVal_wire host v order
  constructor
  · intro h
    exact wireVal_injOn (order.resolve host) (by simp) (h.trans hval.symm)
  · intro h
    rw [h, hval]

/-- The bytes are in the order asked for exactly on a big-endian host, and for
patterns that read the same in both directions. -/
theorem wire_order_iff (host : Host) (s : Scalar) (order : ByteOrder) :
    (∀ w v, (s.write host w v order).buffer = w.buffer ++ s.wire host v order ↔
      host.native = .big ∨ (s.wire host v order).reverse = s.wire host v order) ∧
    (∀ r : ByteBufferReader, r.Valid → r.pos + s.width ≤ r.size →
      ∃ v, s.read host order r = (.ok v, { r with pos := r.pos + s.width }) ∧
        (s.pattern v = wireVal (order.resolve host) (window r.data r.pos s.width) ↔
          host.native = .big ∨
            (window r.data r.pos s.width).reverse = window r.data r.pos s.width)) ∧
    (∀ host' : Host, host'.native ≠ host.native → order ≠ .native → ∀ v, ∃ v' r',
      s.read host' order ⟨(s.write host {} v order).data, 0⟩ = (.ok v', r') ∧
        (v' = v ↔ (s.wire host v order).reverse = s.wire host v order)) :=
  ⟨fun w v => write_in_order_iff host w s v order,
    fun _ hr hfit => read_in_order_iff host s order hr hfit,
    fun _ hne horder v => read_other_host_iff hne s horder v⟩

theorem wire_order_iff_s390x :
    (∀ v, (Scalar.write .s390x {} .uint16 v .big).buffer = beBytes 2 (Scalar.pattern .uint16 v)) ∧
    ∃ v, Scalar.read .s390x .uint16 .big ⟨[1, 2], 0⟩ = (.ok v, ⟨[1, 2], 2⟩) ∧
      Scalar.pattern .uint16 v = 0x0102 := by
  obtain ⟨hwrite, hread, -⟩ := wire_order_iff .s390x .uint16 .big
  have hr : (ByteBufferReader.mk [1, 2] 0).Valid := .mk_zero (by decide)
  obtain ⟨v, hv, hiff⟩ := hread ⟨[1, 2], 0⟩ hr (by decide)
  exact ⟨fun v => (hwrite {} v).mpr (.inl rfl), v, hv, hiff.mpr (.inl rfl)⟩

theorem writeUInt16_big_x86 :
    (Scalar.write .x86 {} .uint16 (0x0102 : UInt16) .big).buffer = [0x02, 0x01] ∧
      (Scalar.write .x86 {} .uint16 (0x0102 : UInt16) .big).buffer ≠
        wireBytes (ByteOrder.big.resolve .x86) 2 0x0102 := by
  decide

end IONet.Core
