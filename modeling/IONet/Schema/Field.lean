import IONet.Core.Types

namespace IONet

open IONet.Core

structure BitFlag where
  bit : UInt8
  name : String
  description : String
  deriving DecidableEq

structure Scaling where
  scale : Double := Double.ofInt 1
  offset : Double := Double.ofInt 0
  deriving DecidableEq

namespace Scaling

def apply (s : Scaling) (raw : Int64) : Double :=
  ((Double.ofInt raw.toInt).mul s.scale).add s.offset

/-- `none` is a division by zero or a cast that is undefined. -/
def remove (s : Scaling) (real : Double) : Option Int64 := do
  let quotient ← (real.sub s.offset).div s.scale
  quotient.toInt64

end Scaling

structure Constraints where
  min : Option Double := none
  max : Option Double := none
  deriving DecidableEq

structure Field where
  name : String := ""
  type : DataType := .uint8
  arraySize : Option UInt64 := none
  stringSize : Option UInt64 := none
  bitCount : Option UInt8 := none
  scaling : Option Scaling := none
  unit : Option String := none
  description : String := ""
  bitFlags : List BitFlag := []
  constraints : Constraints := {}
  deriving DecidableEq

namespace Field

def byteSize (f : Field) : UInt64 :=
  match f.arraySize, f.stringSize, f.bitCount with
  | some n, _, _ => n * dataTypeSize f.type
  | none, some n, _ => n
  | none, none, some n => UInt64.ofNat ((n.toNat + 7) / 8)
  | none, none, none => dataTypeSize f.type

def isFixedSize (f : Field) : Bool := f.type != .string || f.stringSize.isSome

def isBitfield (f : Field) : Bool := f.type == .bitfield || !f.bitFlags.isEmpty

def hasScaling (f : Field) : Bool := f.scaling.isSome

end Field

structure Packet where
  id : UInt32 := 0
  name : String := ""
  description : String := ""
  fields : List Field := []
  deriving DecidableEq

namespace Packet

def totalSize (p : Packet) : UInt64 := p.fields.foldl (fun size field => size + field.byteSize) 0

def isFixedSize (p : Packet) : Bool := p.fields.all Field.isFixedSize

def findField (p : Packet) (name : String) : Option Field := p.fields.find? fun f => f.name = name

/-- The position is cast to `int`. -/
def fieldIndex (p : Packet) (name : String) : Int32 :=
  match p.fields.findIdx? fun f => f.name = name with
  | some i => Int32.ofNat i
  | none => -1

end Packet

end IONet
