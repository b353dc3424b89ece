import IONet.Codec.DecodedPacket
import IONet.Core.ByteBuffer
import IONet.Schema.Schema

namespace IONet.Codec

open IONet.Core

structure DecodeOptions where
  applyScaling : Bool := true
  validateConstraints : Bool := true
  stopOnError : Bool := true
  deriving DecidableEq

structure Decoder where
  schema : Schema
  options : DecodeOptions := {}

/-- A read in the `try` block of `decodeField`. -/
def caught (m : ReadM α) : ReadM α := fun reader =>
  match m reader with
  | (.ok a, reader') => (.ok a, reader')
  | (.error what, reader') => (.error ("Read error: " ++ what), reader')

/-- Returns the error before anything is read. -/
def requiresSize (message : String) (size : UInt64) (m : ReadM α) : ReadM α := fun reader =>
  if size = 0 then (.error message, reader) else m reader

theorem ok_of_caught {m : ReadM α} {r : ByteBufferReader} {a : α} (h : (caught m r).1 = .ok a) :
    (m r).1 = .ok a := by
  simp only [caught] at h
  cases hm : m r with
  | mk res r' =>
    cases res with
    | error what => simp [hm] at h
    | ok a' => simpa [hm] using h

theorem ok_of_requiresSize {message : String} {size : UInt64} {m : ReadM α} {r : ByteBufferReader}
    {a : α} (h : (requiresSize message size m r).1 = .ok a) : (m r).1 = .ok a := by
  simp only [requiresSize] at h
  split_ifs at h
  exact h

namespace Decoder

open ByteBufferReader

variable (host : Host)

def decodeBitfield (rawValue : UInt64) (fieldDef : Field) : DecodedBitfield where
  rawValue := rawValue
  flags := fieldDef.bitFlags.foldl
    (fun flags flag => flags.insert flag.name (host.shiftRight rawValue flag.bit &&& 1 != 0)) ∅

def readBits (bitCount : UInt8) (byteOrder : ByteOrder) : ReadM UInt64 :=
  if bitCount ≤ 8 then readUInt8.map UInt8.toUInt64
  else if bitCount ≤ 16 then (readUInt16 host byteOrder).map UInt16.toUInt64
  else if bitCount ≤ 32 then (readUInt32 host byteOrder).map UInt32.toUInt64
  else readUInt64 host byteOrder

/-- The `switch` of `decodeField`: the raw value and, of a bitfield, the flags. -/
def decodeRaw (fieldDef : Field) (byteOrder : ByteOrder) : ReadM (Value × Option DecodedBitfield) :=
  match fieldDef.type with
  | .int8 => caught (readInt8.map fun val => (.int64 val.toInt64, none))
  | .int16 => caught ((readInt16 host byteOrder).map fun val => (.int64 val.toInt64, none))
  | .int32 => caught ((readInt32 host byteOrder).map fun val => (.int64 val.toInt64, none))
  | .int64 => caught ((readInt64 host byteOrder).map fun val => (.int64 val, none))
  | .uint8 => caught (readUInt8.map fun val => (.uint64 val.toUInt64, none))
  | .uint16 => caught ((readUInt16 host byteOrder).map fun val => (.uint64 val.toUInt64, none))
  | .uint32 => caught ((readUInt32 host byteOrder).map fun val => (.uint64 val.toUInt64, none))
  | .uint64 => caught ((readUInt64 host byteOrder).map fun val => (.uint64 val, none))
  | .float32 =>
    caught ((readFloat32 host byteOrder).map fun val => (.double (Double.ofBits32 val), none))
  | .float64 =>
    caught ((readFloat64 host byteOrder).map fun val => (.double (Double.ofBits64 val), none))
  | .bitfield => caught ((readBits host (fieldDef.bitCount.getD 8) byteOrder).map fun rawVal =>
      (.uint64 rawVal, some (decodeBitfield host rawVal fieldDef)))
  | .string =>
    let size := fieldDef.stringSize.getD 0
    requiresSize "String field requires size" size
      (caught ((readString size).map fun str => (.string str, none)))
  | .bytes =>
    let size := fieldDef.arraySize.getD 0
    requiresSize "Bytes field requires size" size
      (caught ((readBytes size).map fun bytes => (.bytes bytes, none)))

def applyScaling (rawValue : Value) (scaling : Scaling) : Value :=
  match rawValue.numeric with
  | some raw => .double ((raw.mul scaling.scale).add scaling.offset)
  | none => rawValue

def scaledValue (d : Decoder) (fieldDef : Field) (rawValue : Value) : Value :=
  match d.options.applyScaling, fieldDef.scaling with
  | true, some scaling => applyScaling rawValue scaling
  | _, _ => rawValue

def decodedField (d : Decoder) (fieldDef : Field) (raw : Value × Option DecodedBitfield) :
    DecodedField where
  name := fieldDef.name
  type := fieldDef.type
  rawValue := raw.1
  scaledValue := d.scaledValue fieldDef raw.1
  unit := fieldDef.unit.getD ""
  bitfield := raw.2

def decodeField (d : Decoder) (fieldDef : Field) (byteOrder : ByteOrder) : ReadM DecodedField :=
  (decodeRaw host fieldDef byteOrder).map (d.decodedField fieldDef)

/-- The `value` that `validateConstraints` compares, where `hasValue` is set. -/
def checkedNumber (field : DecodedField) : Option Double := field.value.numeric

/-- `false` is the error that `errorMsg` receives. -/
def validateConstraints (field : DecodedField) (fieldDef : Field) : Except String Unit :=
  match checkedNumber field with
  | none => .ok ()
  | some value =>
    match fieldDef.constraints.min.filter (value.lt ·),
      fieldDef.constraints.max.filter (·.lt value) with
    | some min, _ => .error ("Field '" ++ field.name ++ "' value " ++ value.print ++
        " is below minimum " ++ min.print)
    | none, some max => .error ("Field '" ++ field.name ++ "' value " ++ value.print ++
        " is above maximum " ++ max.print)
    | none, none => .ok ()

/-- The loop of `decode`. -/
def decodeFields (d : Decoder) (byteOrder : ByteOrder) :
    List Field → DecodedPacket → ByteBufferReader → Result DecodedPacket × ByteBufferReader
  | [], result, reader => (.ok result, reader)
  | fieldDef :: rest, result, reader =>
    match decodeField host d fieldDef byteOrder reader with
    | (.error message, reader') =>
      if d.options.stopOnError then
        (.error ⟨"Failed to decode field '" ++ fieldDef.name ++ "': " ++ message⟩, reader')
      else decodeFields d byteOrder rest result reader'
    | (.ok field, reader') =>
      match
        if d.options.validateConstraints then validateConstraints field fieldDef else .ok () with
      | .error constraintError =>
        if d.options.stopOnError then (.error ⟨constraintError⟩, reader')
        else decodeFields d byteOrder rest (result.addField field) reader'
      | .ok () => decodeFields d byteOrder rest (result.addField field) reader'

def decode (d : Decoder) (packetId : UInt32) (reader : ByteBufferReader) :
    Result DecodedPacket × ByteBufferReader :=
  match d.schema.findPacketById packetId with
  | none => (.error ⟨"Unknown packet ID: " ++ toString packetId.toNat⟩, reader)
  | some packetDef =>
    decodeFields host d d.schema.byteOrder packetDef.fields
      { packetId := packetId, packetName := packetDef.name } reader

def decodeData (d : Decoder) (packetId : UInt32) (data : List UInt8) : Result DecodedPacket :=
  (decode host d packetId ⟨data, 0⟩).1

def decodeByName (d : Decoder) (packetName : String) (data : List UInt8) : Result DecodedPacket :=
  match d.schema.findPacketByName packetName with
  | none => .error ⟨"Unknown packet name: " ++ packetName⟩
  | some packet => decodeData host d packet.id data

end Decoder

end IONet.Codec
