import IONet.Core.Types
import IONet.Lib.Bytes
import Mathlib.Tactic.IntervalCases

namespace IONet.Core.Endian

open Lib.Bytes

def getNativeByteOrder (host : Host) : ByteOrder :=
  if host.native == .little then .little else .big

def needsSwap (host : Host) (order : ByteOrder) : Bool :=
  let isLittleEndian := host.native == .little
  (order == .big && isLittleEndian) || (order == .little && !isLittleEndian)

/-! The branches of `byteSwap` by `sizeof(T)`; a signed `T` is cast to its
unsigned type before and back after. -/

def byteSwap16 (uval : UInt16) : UInt16 := (uval >>> 8) ||| (uval <<< 8)

def byteSwap32 (uval : UInt32) : UInt32 :=
  ((uval >>> 24) &&& (0x000000FF : UInt32)) |||
  ((uval >>> 8) &&& (0x0000FF00 : UInt32)) |||
  ((uval <<< 8) &&& (0x00FF0000 : UInt32)) |||
  ((uval <<< 24) &&& (0xFF000000 : UInt32))

def byteSwap64 (uval : UInt64) : UInt64 :=
  ((uval >>> 56) &&& (0x00000000000000FF : UInt64)) |||
  ((uval >>> 40) &&& (0x000000000000FF00 : UInt64)) |||
  ((uval >>> 24) &&& (0x0000000000FF0000 : UInt64)) |||
  ((uval >>> 8) &&& (0x00000000FF000000 : UInt64)) |||
  ((uval <<< 8) &&& (0x000000FF00000000 : UInt64)) |||
  ((uval <<< 24) &&& (0x0000FF0000000000 : UInt64)) |||
  ((uval <<< 40) &&& (0x00FF000000000000 : UInt64)) |||
  ((uval <<< 56) &&& (0xFF00000000000000 : UInt64))

/-- `convert<T>`, given the `byteSwap` of `T`. -/
def convert (host : Host) (byteSwap : α → α) (value : α) (order : ByteOrder) : α :=
  match order with
  | .native => value
  | _ => if needsSwap host order then byteSwap value else value

theorem leBytes_byteSwap16 (x : UInt16) :
    leBytes 2 (byteSwap16 x).toNat = beBytes 2 x.toNat := by
  apply leBytes_eq_beBytes
  intro i hi
  change (byteSwap16 x).toBitVec.getLsbD i = x.toBitVec.getLsbD _
  simp only [byteSwap16, UInt16.toBitVec_or, UInt16.toBitVec_shiftLeft,
    UInt16.toBitVec_shiftRight, BitVec.getLsbD_or, UInt16.toBitVec_ofNat]
  interval_cases i <;> simp

theorem leBytes_byteSwap32 (x : UInt32) :
    leBytes 4 (byteSwap32 x).toNat = beBytes 4 x.toNat := by
  apply leBytes_eq_beBytes
  intro i hi
  change (byteSwap32 x).toBitVec.getLsbD i = x.toBitVec.getLsbD _
  simp only [byteSwap32, UInt32.toBitVec_or, UInt32.toBitVec_and, UInt32.toBitVec_shiftLeft,
    UInt32.toBitVec_shiftRight, BitVec.getLsbD_or, BitVec.getLsbD_and, UInt32.toBitVec_ofNat]
  interval_cases i <;> simp

theorem leBytes_byteSwap64 (x : UInt64) :
    leBytes 8 (byteSwap64 x).toNat = beBytes 8 x.toNat := by
  apply leBytes_eq_beBytes
  intro i hi
  change (byteSwap64 x).toBitVec.getLsbD i = x.toBitVec.getLsbD _
  simp only [byteSwap64, UInt64.toBitVec_or, UInt64.toBitVec_and, UInt64.toBitVec_shiftLeft,
    UInt64.toBitVec_shiftRight, BitVec.getLsbD_or, BitVec.getLsbD_and, UInt64.toBitVec_ofNat]
  interval_cases i <;> simp

end IONet.Core.Endian
