import IONet.Core.WireOrder

namespace IONet.Core

open Lib.Bytes Lib.Slots

inductive WriteOp
  | int8 (v : Int8) : WriteOp
  | uint8 (v : UInt8) : WriteOp
  | scalar (s : Scalar) (v : s.Val) (order : ByteOrder) : WriteOp
  | bytes (data : List UInt8) : WriteOp
  | string (str : List UInt8) (fixedSize : UInt64) : WriteOp

inductive ReadOp
  | int8 : ReadOp
  | uint8 : ReadOp
  | scalar (s : Scalar) (order : ByteOrder) : ReadOp
  | bytes (count : UInt64) : ReadOp
  | string (size : UInt64) : ReadOp

inductive Datum
  | int8 (v : Int8) : Datum
  | uint8 (v : UInt8) : Datum
  | scalar (s : Scalar) (v : s.Val) : Datum
  | bytes (data : List UInt8) : Datum
  | string (str : List UInt8) : Datum

def WriteOp.run (host : Host) (w : ByteBufferWriter) : WriteOp → ByteBufferWriter
  | .int8 v => w.writeInt8 v
  | .uint8 v => w.writeUInt8 v
  | .scalar s v order => s.write host w v order
  | .bytes data => w.writeBytes data
  | .string str fixedSize => w.writeString str fixedSize

def ReadOp.run (host : Host) : ReadOp → ReadM Datum
  | .int8 => ByteBufferReader.readInt8.map .int8
  | .uint8 => ByteBufferReader.readUInt8.map .uint8
  | .scalar s order => (s.read host order).map (.scalar s)
  | .bytes count => (ByteBufferReader.readBytes count).map .bytes
  | .string size => (ByteBufferReader.readString size).map .string

def writeAll (host : Host) (ops : List WriteOp) (w : ByteBufferWriter) : ByteBufferWriter :=
  ops.foldl (WriteOp.run host) w

def readEach (host : Host) : List ReadOp → ReadM (List Datum)
  | [], r => (.ok [], r)
  | op :: ops, r =>
    match op.run host r with
    | (.error what, r') => (.error what, r')
    | (.ok datum, r') => (readEach host ops).map (datum :: ·) r'

/-- A string of unspecified size is read back by its length. -/
def WriteOp.matching : WriteOp → ReadOp
  | .int8 _ => .int8
  | .uint8 _ => .uint8
  | .scalar s _ order => .scalar s order
  | .bytes data => .bytes (UInt64.ofNat data.length)
  | .string str fixedSize =>
    .string (if fixedSize = 0 then UInt64.ofNat str.length else fixedSize)

/-- A string comes back cut or padded with zeros to its fixed size. -/
def fitted (str : List UInt8) (fixedSize : UInt64) : List UInt8 :=
  if fixedSize = 0 then str
  else str.take fixedSize.toNat ++ List.replicate (fixedSize.toNat - str.length) 0

def WriteOp.datum : WriteOp → Datum
  | .int8 v => .int8 v
  | .uint8 v => .uint8 v
  | .scalar s v _ => .scalar s v
  | .bytes data => .bytes data
  | .string str fixedSize => .string (fitted str fixedSize)

def WriteOp.appended (host : Host) : WriteOp → List UInt8
  | .int8 v => [v.toUInt8]
  | .uint8 v => [v]
  | .scalar s v order => host.mirror (s.wire host v order)
  | .bytes data => data
  | .string str fixedSize => fitted str fixedSize

theorem buffer_run (host : Host) (w : ByteBufferWriter) (op : WriteOp) :
    (op.run host w).buffer = w.buffer ++ op.appended host := by
  cases op with
  | int8 v => rfl
  | uint8 v => rfl
  | scalar s v order => exact s.buffer_write host w v order
  | bytes data => rfl
  | string str fixedSize =>
    simp only [WriteOp.run, ByteBufferWriter.writeString, WriteOp.appended, fitted]
    split_ifs
    · rfl
    · have hpad : fixedSize.toNat - min str.length fixedSize.toNat =
          fixedSize.toNat - str.length := by omega
      simp [ByteBufferWriter.push, hpad, List.take_eq_take_iff, Nat.min_comm]

theorem buffer_writeAll (host : Host) (ops : List WriteOp) (w : ByteBufferWriter) :
    (writeAll host ops w).buffer = w.buffer ++ ops.flatMap (WriteOp.appended host) := by
  induction ops generalizing w with
  | nil => simp [writeAll]
  | cons op ops ih =>
    have hrest := ih (op.run host w)
    rw [buffer_run] at hrest
    simpa [writeAll] using hrest

theorem length_fitted (str : List UInt8) {fixedSize : UInt64} (h : fixedSize ≠ 0) :
    (fitted str fixedSize).length = fixedSize.toNat := by
  simp only [fitted, h, if_false, List.length_append, List.length_take, List.length_replicate]
  omega

theorem readFixed_one {r : ByteBufferReader} (hr : r.Valid) {b : UInt8} (combine : UInt8 → α)
    (hfit : r.pos + 1 ≤ r.size) (hwindow : window r.data r.pos 1 = [b]) :
    ByteBufferReader.readFixed 1 (fun bs => combine (bs 0)) r =
      (.ok (combine b), { r with pos := r.pos + 1 }) := by
  have hbytes := ByteBufferReader.ofFn_bytesAt hfit
  rw [hwindow, List.ofFn_succ, List.cons.injEq] at hbytes
  rw [ByteBufferReader.readFixed_eq hr _ hfit, hbytes.1]

theorem readBlock_window {r : ByteBufferReader} (hr : r.Valid) (tooLong : String) {n : Nat}
    {bs : List UInt8} (hlen : bs.length = n) (hfit : r.pos + n ≤ r.size)
    (hwindow : window r.data r.pos n = bs) {count : UInt64} (hcount : count.toNat = n) :
    ByteBufferReader.readBlock tooLong count r = (.ok bs, { r with pos := r.pos + bs.length }) := by
  rw [ByteBufferReader.readBlock_eq hr tooLong (by rwa [hcount]), hcount, hwindow, hlen]

theorem run_matching (host : Host) (op : WriteOp) {r : ByteBufferReader} (hr : r.Valid)
    (hfit : r.pos + (op.appended host).length ≤ r.size)
    (hwindow : window r.data r.pos (op.appended host).length = op.appended host) :
    op.matching.run host r =
      (.ok op.datum, { r with pos := r.pos + (op.appended host).length }) := by
  have hsize := hr.size_lt
  cases op with
  | int8 v => exact ReadM.map_eq (readFixed_one hr UInt8.toInt8 hfit hwindow) Datum.int8
  | uint8 v => exact ReadM.map_eq (readFixed_one hr id hfit hwindow) Datum.uint8
  | scalar s v order =>
    have hlen : ((WriteOp.scalar s v order).appended host).length = s.width := by
      simp [WriteOp.appended]
    rw [hlen] at hfit hwindow ⊢
    obtain ⟨v', hread, hv'⟩ := s.read_eq host order hr hfit
    rw [hwindow, WriteOp.appended, Host.mirror_mirror, s.wireVal_wire] at hv'
    rw [← s.pattern_injective hv']
    exact ReadM.map_eq hread (Datum.scalar s)
  | bytes data =>
    have hlt : data.length < 2 ^ 64 := by
      simp only [WriteOp.appended] at hfit
      omega
    have hcount : (UInt64.ofNat data.length).toNat = data.length := UInt64.toNat_ofNat_of_lt' hlt
    exact ReadM.map_eq (readBlock_window hr _ rfl hfit hwindow hcount) Datum.bytes
  | string str fixedSize =>
    have hcount : (if fixedSize = 0 then UInt64.ofNat str.length else fixedSize).toNat =
        (fitted str fixedSize).length := by
      by_cases hzero : fixedSize = 0
      · simp only [WriteOp.appended, fitted, hzero, if_true] at hfit ⊢
        have hlt : str.length < 2 ^ 64 := by omega
        exact UInt64.toNat_ofNat_of_lt' hlt
      · rw [length_fitted str hzero, if_neg hzero]
    exact ReadM.map_eq (readBlock_window hr _ rfl hfit hwindow hcount) Datum.string

theorem readEach_from (host : Host) (ops : List WriteOp) (pre post : List UInt8)
    (hsize : (pre ++ ops.flatMap (WriteOp.appended host) ++ post).length < 2 ^ 63) :
    readEach host (ops.map WriteOp.matching)
        ⟨pre ++ ops.flatMap (WriteOp.appended host) ++ post, pre.length⟩ =
      (.ok (ops.map WriteOp.datum), ⟨pre ++ ops.flatMap (WriteOp.appended host) ++ post,
        pre.length + (ops.flatMap (WriteOp.appended host)).length⟩) := by
  induction ops generalizing pre with
  | nil => rfl
  | cons op ops ih =>
    have hdata : pre ++ (op :: ops).flatMap (WriteOp.appended host) ++ post =
        pre ++ op.appended host ++ (ops.flatMap (WriteOp.appended host) ++ post) := by
      simp
    rw [hdata] at hsize ⊢
    have hr : (ByteBufferReader.mk
        (pre ++ op.appended host ++ (ops.flatMap (WriteOp.appended host) ++ post))
        pre.length).Valid := by
      refine ⟨?_, hsize⟩
      simp only [ByteBufferReader.size, List.length_append]
      omega
    have hwindow : window (pre ++ op.appended host ++
        (ops.flatMap (WriteOp.appended host) ++ post)) pre.length (op.appended host).length =
        op.appended host := by
      have hself : 0 + (op.appended host).length ≤ (op.appended host).length := by omega
      rw [← Nat.add_zero pre.length, window_append hself, window_self]
    have hfirst := run_matching host op hr (by
      simp only [ByteBufferReader.size, List.length_append]
      omega) hwindow
    have hrest := ih (pre ++ op.appended host) (by simpa using hsize)
    simp only [List.length_append, ← List.append_assoc] at hfirst hrest ⊢
    simp only [List.map_cons, readEach, hfirst, ReadM.map, hrest]
    simp [Nat.add_assoc]

theorem readEach_writeAll (host : Host) (ops : List WriteOp)
    (hsize : (writeAll host ops {}).size < 2 ^ 63) :
    ∃ r', readEach host (ops.map WriteOp.matching) ⟨(writeAll host ops {}).data, 0⟩ =
        (.ok (ops.map WriteOp.datum), r') ∧
      r'.atEnd ∧ r'.position = (writeAll host ops {}).size := by
  have hbuffer : (writeAll host ops {}).buffer = ops.flatMap (WriteOp.appended host) := by
    rw [buffer_writeAll]
    rfl
  rw [ByteBufferWriter.size, hbuffer] at hsize ⊢
  have hread := readEach_from host ops [] [] (by simpa using hsize)
  simp only [List.nil_append, List.append_nil, List.length_nil, Nat.zero_add] at hread
  rw [ByteBufferWriter.data, hbuffer]
  exact ⟨_, hread, by simp [ByteBufferReader.atEnd, ByteBufferReader.size], rfl⟩

theorem readEach_writeAll_mixed :
    ∃ r', readEach .x86 [.scalar .uint16 .big, .string 4, .int8] ⟨[2, 1, 72, 105, 0, 0, 255], 0⟩ =
        (.ok [.scalar .uint16 (0x0102 : UInt16), .string [72, 105, 0, 0], .int8 (-1)], r') ∧
      r'.atEnd ∧ r'.position = 7 :=
  readEach_writeAll .x86
    [.scalar .uint16 (0x0102 : UInt16) .big, .string [72, 105] 4, .int8 (-1)] (by decide)

end IONet.Core
