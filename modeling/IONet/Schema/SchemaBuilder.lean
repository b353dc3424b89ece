import IONet.Schema.Schema
import Mathlib.Data.List.ModifyLast

namespace IONet

open IONet.Core

structure SchemaBuilder where
  info_ : SchemaInfo := {}
  byteOrder_ : ByteOrder := .big
  packets_ : List Packet := []
  currentPacket_ : Option Packet := none
  deriving DecidableEq

abbrev BuildM := ExceptT String (StateM SchemaBuilder)

namespace SchemaBuilder

def finishCurrentPacket (b : SchemaBuilder) : SchemaBuilder :=
  match b.currentPacket_ with
  | some packet => { b with packets_ := b.packets_ ++ [packet], currentPacket_ := none }
  | none => b

def ensurePacket : BuildM Unit := do
  if (← get).currentPacket_.isNone then
    throw "No packet defined. Call packet() first."

def currentFields (b : SchemaBuilder) : List Field := (b.currentPacket_.map Packet.fields).getD []

def ensureField : BuildM Unit := do
  ensurePacket
  if (← get).currentFields.isEmpty then
    throw "No field defined. Call field() first."

def onPacket (g : Packet → Packet) : BuildM Unit :=
  modify fun b => { b with currentPacket_ := b.currentPacket_.map g }

def pushField (f : Field) : BuildM Unit := onPacket fun p => { p with fields := p.fields ++ [f] }

def onBack (g : Field → Field) : BuildM Unit :=
  onPacket fun p => { p with fields := p.fields.modifyLast g }

def name (name : String) : BuildM Unit :=
  modify fun b => { b with info_ := { b.info_ with name := name } }

def version (version : String) : BuildM Unit :=
  modify fun b => { b with info_ := { b.info_ with version := version } }

def description (desc : String) : BuildM Unit :=
  modify fun b => { b with info_ := { b.info_ with description := desc } }

def byteOrder (order : ByteOrder) : BuildM Unit := modify fun b => { b with byteOrder_ := order }

def bigEndian : BuildM Unit := modify fun b => { b with byteOrder_ := .big }

def littleEndian : BuildM Unit := modify fun b => { b with byteOrder_ := .little }

def packet (id : UInt32) (name : String) : BuildM Unit := do
  modify finishCurrentPacket
  modify fun b => { b with currentPacket_ := some { id := id, name := name } }

def packetDescription (desc : String) : BuildM Unit := do
  ensurePacket
  onPacket fun p => { p with description := desc }

def field (name : String) (type : DataType) : BuildM Unit := do
  ensurePacket
  pushField { name := name, type := type }

def uint8 (name : String) : BuildM Unit := field name .uint8

def uint16 (name : String) : BuildM Unit := field name .uint16

def uint32 (name : String) : BuildM Unit := field name .uint32

def uint64 (name : String) : BuildM Unit := field name .uint64

def int8 (name : String) : BuildM Unit := field name .int8

def int16 (name : String) : BuildM Unit := field name .int16

def int32 (name : String) : BuildM Unit := field name .int32

def int64 (name : String) : BuildM Unit := field name .int64

def float32 (name : String) : BuildM Unit := field name .float32

def float64 (name : String) : BuildM Unit := field name .float64

def scaled (scale : Double) (offset : Double := Double.ofInt 0) : BuildM Unit := do
  ensureField
  onBack fun f => { f with scaling := some { scale := scale, offset := offset } }

def scale (scale : Double) : BuildM Unit := scaled scale (Double.ofInt 0)

def offset (off : Double) : BuildM Unit := do
  ensureField
  onBack fun f =>
    match f.scaling with
    | none => { f with scaling := some { scale := Double.ofInt 1, offset := off } }
    | some scaling => { f with scaling := some { scaling with offset := off } }

def unit (u : String) : BuildM Unit := do
  ensureField
  onBack fun f => { f with unit := some u }

def fieldDescription (desc : String) : BuildM Unit := do
  ensureField
  onBack fun f => { f with description := desc }

def bitfield (name : String) (bits : UInt8) : BuildM Unit := do
  ensurePacket
  pushField { name := name, type := .bitfield, bitCount := some bits }

def flag (bit : UInt8) (name : String) (desc : String := "") : BuildM Unit := do
  ensureField
  if (← get).currentFields.getLast?.any fun f => f.type != .bitfield then
    throw "flag() can only be called after bitfield()"
  onBack fun f =>
    { f with bitFlags := f.bitFlags ++ [{ bit := bit, name := name, description := desc }] }

def string (name : String) (size : UInt64) : BuildM Unit := do
  ensurePacket
  pushField { name := name, type := .string, stringSize := some size }

def done : BuildM Unit := pure ()

/-- A first call of `build`, which moves the packets out. -/
def build (b : SchemaBuilder) : Schema :=
  b.finishCurrentPacket.packets_.foldl Schema.addPacket
    ((({} : Schema).setInfo b.finishCurrentPacket.info_).setByteOrder
      b.finishCurrentPacket.byteOrder_)

end SchemaBuilder

end IONet
