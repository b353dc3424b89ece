import IONet.Core.Endian
import IONet.Lib.Slots

namespace IONet.Core

open Endian Lib.Bytes Lib.Slots

/-! ### ByteBufferWriter

A `float` or `double` is given by its bit pattern, as `memcpy` sees it. -/

structure ByteBufferWriter where
  buffer : List UInt8 := []
  deriving DecidableEq

namespace ByteBufferWriter

def size (w : ByteBufferWriter) : Nat := w.buffer.length

def data (w : ByteBufferWriter) : List UInt8 := w.buffer

def push (w : ByteBufferWriter) (bytes : List UInt8) : ByteBufferWriter :=
  { w with buffer := w.buffer ++ bytes }

def writeUInt8 (w : ByteBufferWriter) (value : UInt8) : ByteBufferWriter := w.push [value]

def writeUInt16 (host : Host) (w : ByteBufferWriter) (value : UInt16) (order : ByteOrder) :
    ByteBufferWriter :=
  let ordered := convert host byteSwap16 value order
  w.push [(ordered >>> 8).toUInt8, (ordered &&& 0xFF).toUInt8]

def writeUInt32 (host : Host) (w : ByteBufferWriter) (value : UInt32) (order : ByteOrder) :
    ByteBufferWriter :=
  let ordered := convert host byteSwap32 value order
  w.push [(ordered >>> 24).toUInt8, (ordered >>> 16).toUInt8, (ordered >>> 8).toUInt8,
    (ordered &&& 0xFF).toUInt8]

def writeUInt64 (host : Host) (w : ByteBufferWriter) (value : UInt64) (order : ByteOrder) :
    ByteBufferWriter :=
  let ordered := convert host byteSwap64 value order
  ([7, 6, 5, 4, 3, 2, 1, 0] : List UInt64).foldl
    (fun w i => w.push [(ordered >>> (i * 8)).toUInt8]) w

def writeInt8 (w : ByteBufferWriter) (value : Int8) : ByteBufferWriter :=
  w.push [value.toUInt8]

/-! The signed writers repeat the body of the unsigned one on the cast value. -/

def writeInt16 (host : Host) (w : ByteBufferWriter) (value : Int16) (order : ByteOrder) :
    ByteBufferWriter :=
  writeUInt16 host w value.toUInt16 order

def writeInt32 (host : Host) (w : ByteBufferWriter) (value : Int32) (order : ByteOrder) :
    ByteBufferWriter :=
  writeUInt32 host w value.toUInt32 order

def writeInt64 (host : Host) (w : ByteBufferWriter) (value : Int64) (order : ByteOrder) :
    ByteBufferWriter :=
  writeUInt64 host w value.toUInt64 order

def writeFloat32 (host : Host) (w : ByteBufferWriter) (bits : UInt32) (order : ByteOrder) :
    ByteBufferWriter :=
  writeUInt32 host w bits order

def writeFloat64 (host : Host) (w : ByteBufferWriter) (bits : UInt64) (order : ByteOrder) :
    ByteBufferWriter :=
  writeUInt64 host w bits order

def writeBytes (w : ByteBufferWriter) (data : List UInt8) : ByteBufferWriter := w.push data

def writeString (w : ByteBufferWriter) (str : List UInt8) (fixedSize : UInt64) :
    ByteBufferWriter :=
  if fixedSize = 0 then w.push str
  else
    let copySize := min str.length fixedSize.toNat
    (w.push (str.take copySize)).push (List.replicate (fixedSize.toNat - copySize) 0)

/-- A vector that was moved from is empty. -/
def take (w : ByteBufferWriter) : List UInt8 × ByteBufferWriter :=
  (w.buffer, { w with buffer := [] })

def clear (w : ByteBufferWriter) : ByteBufferWriter := { w with buffer := [] }

end ByteBufferWriter

/-! ### ByteBufferReader -/

structure ByteBufferReader where
  data : List UInt8
  pos : Nat := 0
  deriving DecidableEq

/-- An operation on the reader: what it returns or throws (`what()`), and the
reader it leaves behind. -/
abbrev ReadM (α : Type) := ByteBufferReader → Except String α × ByteBufferReader

def ReadM.map (f : α → β) (m : ReadM α) : ReadM β := fun r =>
  match m r with
  | (.ok a, r') => (.ok (f a), r')
  | (.error what, r') => (.error what, r')

theorem ReadM.map_eq {m : ReadM α} {r r' : ByteBufferReader} {a : α} (h : m r = (.ok a, r'))
    (f : α → β) : m.map f r = (.ok (f a), r') := by
  simp [ReadM.map, h]

theorem ReadM.ok_of_map {m : ReadM α} {f : α → β} {r : ByteBufferReader} {b : β}
    (h : (m.map f r).1 = .ok b) : ∃ a, (m r).1 = .ok a ∧ b = f a := by
  simp only [ReadM.map] at h
  cases hm : m r with
  | mk res r' =>
    cases res with
    | error what => simp [hm] at h
    | ok a =>
      simp only [hm, Except.ok.injEq] at h
      exact ⟨a, rfl, h.symm⟩

namespace ByteBufferReader

def size (r : ByteBufferReader) : Nat := r.data.length

def position (r : ByteBufferReader) : Nat := r.pos

def remaining (r : ByteBufferReader) : Nat := (r.size + 2 ^ 64 - r.pos) % 2 ^ 64

def atEnd (r : ByteBufferReader) : Bool := r.pos ≥ r.size

def advance (r : ByteBufferReader) (count : Nat) : ByteBufferReader :=
  { r with pos := (r.pos + count) % 2 ^ 64 }

/-- The `needed` bytes from `data_ + pos_` on.  Beyond the buffer an access is
undefined; the value there is immaterial. -/
def bytesAt (r : ByteBufferReader) (needed : Nat) (i : Fin needed) : UInt8 :=
  r.data.getD (r.pos + i) 0

def checkRemaining (r : ByteBufferReader) (needed : Nat) : Except String Unit :=
  if (r.pos + needed) % 2 ^ 64 > r.size then
    .error ("Buffer underflow: need " ++ toString needed ++ " bytes, have " ++
      toString r.remaining)
  else .ok ()

/-- The common shape of the typed reads: check, combine the next bytes, move on. -/
def readFixed (needed : Nat) (combine : (Fin needed → UInt8) → α) : ReadM α := fun r =>
  match r.checkRemaining needed with
  | .error what => (.error what, r)
  | .ok () => (.ok (combine (r.bytesAt needed)), r.advance needed)

def readUInt8 : ReadM UInt8 := readFixed 1 fun b => b 0

def readUInt16 (host : Host) (order : ByteOrder) : ReadM UInt16 := readFixed 2 fun b =>
  let value := ((b 0).toUInt16 <<< 8) ||| (b 1).toUInt16
  convert host byteSwap16 value order

def readUInt32 (host : Host) (order : ByteOrder) : ReadM UInt32 := readFixed 4 fun b =>
  let value := ((b 0).toUInt32 <<< 24) ||| ((b 1).toUInt32 <<< 16) ||| ((b 2).toUInt32 <<< 8) |||
    (b 3).toUInt32
  convert host byteSwap32 value order

def readUInt64 (host : Host) (order : ByteOrder) : ReadM UInt64 := readFixed 8 fun b =>
  let value := (List.finRange 8).foldl
    (fun (value : UInt64) i => (value <<< 8) ||| (b i).toUInt64) 0
  convert host byteSwap64 value order

def readInt8 : ReadM Int8 := readFixed 1 fun b => (b 0).toInt8

/-! The signed readers repeat the body of the unsigned one and cast the result. -/

def readInt16 (host : Host) (order : ByteOrder) : ReadM Int16 :=
  (readUInt16 host order).map UInt16.toInt16

def readInt32 (host : Host) (order : ByteOrder) : ReadM Int32 :=
  (readUInt32 host order).map UInt32.toInt32

def readInt64 (host : Host) (order : ByteOrder) : ReadM Int64 :=
  (readUInt64 host order).map UInt64.toInt64

def readFloat32 (host : Host) (order : ByteOrder) : ReadM UInt32 := readUInt32 host order

def readFloat64 (host : Host) (order : ByteOrder) : ReadM UInt64 := readUInt64 host order

/-- A container of `count` bytes is built before the position moves; `tooLong`
is what its constructor throws past the maximal length. -/
def readBlock (tooLong : String) (count : UInt64) : ReadM (List UInt8) := fun r =>
  match r.checkRemaining count.toNat with
  | .error what => (.error what, r)
  | .ok () =>
    if count.toNat > maxLength then (.error tooLong, r)
    else (.ok (List.ofFn (r.bytesAt count.toNat)), r.advance count.toNat)

def readBytes (count : UInt64) : ReadM (List UInt8) :=
  readBlock "cannot create std::vector larger than max_size()" count

def readString (size : UInt64) : ReadM (List UInt8) :=
  readBlock "basic_string::_M_create" size

def seek (pos : UInt64) : ReadM Unit := fun r =>
  if pos.toNat > r.size then (.error "Seek past end of buffer", r)
  else (.ok (), { r with pos := pos.toNat })

def skip (count : UInt64) : ReadM Unit := fun r =>
  match r.checkRemaining count.toNat with
  | .error what => (.error what, r)
  | .ok () => (.ok (), r.advance count.toNat)

def reset : ReadM Unit := fun r => (.ok (), { r with pos := 0 })

end ByteBufferReader

end IONet.Core
