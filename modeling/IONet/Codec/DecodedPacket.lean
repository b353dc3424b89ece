import IONet.Core.Types
import IONet.Lib.LastIndex

namespace IONet.Codec

open IONet.Core Lib.LastIndex

structure DecodedBitfield where
  rawValue : UInt64 := 0
  flags : AList fun _ : String => Bool := ∅
  deriving DecidableEq

namespace DecodedBitfield

def isSet (bf : DecodedBitfield) (flagName : String) : Bool := (bf.flags.lookup flagName).getD false

def bitAt (host : Host) (bf : DecodedBitfield) (bit : UInt8) : Bool :=
  host.shiftRight bf.rawValue bit &&& 1 != 0

end DecodedBitfield

structure DecodedField where
  name : String
  type : DataType
  rawValue : Value
  scaledValue : Value
  unit : String
  bitfield : Option DecodedBitfield
  deriving DecidableEq

structure Casts (T : Type) where
  ofInt64 : Int64 → T
  ofUInt64 : UInt64 → T
  ofDouble : Double → T

/-- A type that `as` is asked for: how to get it from its own alternative, and
the conversions when it is arithmetic. -/
structure Requested (T : Type) where
  held : Value → Option T
  casts : Option (Casts T)

namespace Requested

/-- What the cast of a `double` out of range gives is left to the machine. -/
def int64 (outside : Double → Int64) : Requested Int64 where
  held
    | .int64 v => some v
    | _ => none
  casts := some {
    ofInt64 := id
    ofUInt64 := UInt64.toInt64
    ofDouble := fun x => x.toInt64.getD (outside x) }

def uint64 (outside : Double → UInt64) : Requested UInt64 where
  held
    | .uint64 v => some v
    | _ => none
  casts := some {
    ofInt64 := Int64.toUInt64
    ofUInt64 := id
    ofDouble := fun x => x.toUInt64.getD (outside x) }

def double : Requested Double where
  held
    | .double x => some x
    | _ => none
  casts := some {
    ofInt64 := fun v => Double.ofInt v.toInt
    ofUInt64 := fun v => Double.ofInt v.toNat
    ofDouble := id }

def string : Requested (List UInt8) where
  held
    | .string v => some v
    | _ => none
  casts := none

end Requested

namespace DecodedField

def hasScaling (f : DecodedField) : Bool :=
  f.scaledValue != .monostate && f.scaledValue.index != f.rawValue.index

def value (f : DecodedField) : Value := if f.hasScaling then f.scaledValue else f.rawValue

def as {T : Type} (t : Requested T) (f : DecodedField) : Option T :=
  let val := if f.hasScaling then f.scaledValue else f.rawValue
  match t.held val, t.casts, val with
  | some v, _, _ => some v
  | none, some c, .int64 v => some (c.ofInt64 v)
  | none, some c, .uint64 v => some (c.ofUInt64 v)
  | none, some c, .double v => some (c.ofDouble v)
  | none, _, _ => none

def asDouble (f : DecodedField) : Option Double :=
  (if f.hasScaling then f.scaledValue else f.rawValue).numeric

theorem as_double (f : DecodedField) : f.as Requested.double = f.asDouble := by
  unfold as asDouble
  cases (if f.hasScaling then f.scaledValue else f.rawValue) <;> rfl

end DecodedField

structure DecodedPacket where
  packetId : UInt32 := 0
  packetName : String := ""
  fields : List DecodedField := []
  fieldIndex : AList fun _ : String => Nat := ∅
  indexed : Indexes fieldIndex (fields.map DecodedField.name) := by
    exact Lib.LastIndex.Indexes.empty

namespace DecodedPacket

def addField (p : DecodedPacket) (field : DecodedField) : DecodedPacket where
  packetId := p.packetId
  packetName := p.packetName
  fields := p.fields ++ [field]
  fieldIndex := p.fieldIndex.insert field.name p.fields.length
  indexed := by simpa using p.indexed.insert field.name

def fieldCount (p : DecodedPacket) : Nat := p.fields.length

def field (p : DecodedPacket) (name : String) : Option DecodedField :=
  (p.fieldIndex.lookup name).bind fun i => p.fields[i]?

def fieldAt (p : DecodedPacket) (index : Nat) : Option DecodedField := p.fields[index]?

def hasField (p : DecodedPacket) (name : String) : Bool := (p.fieldIndex.lookup name).isSome

def get {T : Type} (t : Requested T) (p : DecodedPacket) (fieldName : String) : Option T :=
  (p.field fieldName).bind (DecodedField.as t)

def getDouble (p : DecodedPacket) (fieldName : String) : Option Double :=
  (p.field fieldName).bind DecodedField.asDouble

theorem get_double (p : DecodedPacket) (fieldName : String) :
    p.get Requested.double fieldName = p.getDouble fieldName := by
  simp only [get, getDouble, DecodedField.as_double]

@[simp] theorem fields_addField (p : DecodedPacket) (f : DecodedField) :
    (p.addField f).fields = p.fields ++ [f] := rfl

theorem fields_foldl_addField (p : DecodedPacket) (fs : List DecodedField) :
    (fs.foldl addField p).fields = p.fields ++ fs := by
  induction fs generalizing p with
  | nil => simp
  | cons f fs ih => simp [ih]

theorem packetId_foldl_addField (p : DecodedPacket) (fs : List DecodedField) :
    (fs.foldl addField p).packetId = p.packetId := by
  induction fs generalizing p with
  | nil => rfl
  | cons f fs ih => exact ih (p.addField f)

theorem packetName_foldl_addField (p : DecodedPacket) (fs : List DecodedField) :
    (fs.foldl addField p).packetName = p.packetName := by
  induction fs generalizing p with
  | nil => rfl
  | cons f fs ih => exact ih (p.addField f)

theorem field_of_mem {p : DecodedPacket} {f : DecodedField} (hf : f ∈ p.fields)
    (hunique : ∀ g ∈ p.fields, g.name = f.name → g = f) : p.field f.name = some f := by
  obtain ⟨i, hi⟩ := List.mem_iff_getElem?.mp hf
  obtain ⟨k, g, -, hlast, hname⟩ := p.indexed.exists_lastAt hi
  cases hunique g (List.mem_of_getElem? hlast.1) hname
  exact p.indexed.find_eq_some_iff.mpr ⟨k, hlast, rfl⟩

def filled (packetId : UInt32) (packetName : String) (fs : List DecodedField) : DecodedPacket :=
  fs.foldl addField { packetId := packetId, packetName := packetName }

@[simp] theorem fields_filled (packetId : UInt32) (packetName : String) (fs : List DecodedField) :
    (filled packetId packetName fs).fields = fs := fields_foldl_addField _ fs

section

variable (p : DecodedPacket)

theorem fieldAt_of_lookup {name : String} {i : Nat} (h : p.fieldIndex.lookup name = some i) :
    i < p.fieldCount ∧ ∃ f, p.fieldAt i = some f ∧ f.name = name := by
  obtain ⟨hi, -⟩ := p.indexed.lookup_eq_some_iff.mp h
  rw [List.getElem?_map, Option.map_eq_some_iff] at hi
  obtain ⟨f, hf, hname⟩ := hi
  exact ⟨(List.getElem?_eq_some_iff.mp hf).1, f, hf, hname⟩

theorem hasField_iff (name : String) : p.hasField name ↔ ∃ f ∈ p.fields, f.name = name := by
  rw [hasField, AList.lookup_isSome, p.indexed.mem, List.mem_map]

theorem isSome_field_iff (name : String) : (p.field name).isSome ↔ p.hasField name := by
  unfold field hasField
  cases hlook : p.fieldIndex.lookup name with
  | none => simp
  | some i =>
    obtain ⟨-, f, hf, -⟩ := p.fieldAt_of_lookup hlook
    rw [fieldAt] at hf
    simp [hf]

theorem field_eq_some_iff (name : String) (f : DecodedField) :
    p.field name = some f ↔ ∃ i, LastAt DecodedField.name p.fields i f ∧ f.name = name :=
  p.indexed.find_eq_some_iff

theorem isSome_fieldAt_iff (i : Nat) : (p.fieldAt i).isSome ↔ i < p.fieldCount := by
  simp [fieldAt, fieldCount]

end

/-- After any sequence of `addField` calls the name index leads from every name
to the field added last under it, and nowhere else. -/
theorem index_consistent (packetId : UInt32) (packetName : String) (fs : List DecodedField) :
    (filled packetId packetName fs).fields = fs ∧
    (∀ name i, (filled packetId packetName fs).fieldIndex.lookup name = some i →
      i < (filled packetId packetName fs).fieldCount ∧
        ∃ f, (filled packetId packetName fs).fieldAt i = some f ∧ f.name = name) ∧
    (∀ name, ((filled packetId packetName fs).field name).isSome ↔
      (filled packetId packetName fs).hasField name) ∧
    (∀ name, (filled packetId packetName fs).hasField name ↔ ∃ f ∈ fs, f.name = name) ∧
    (∀ name f, (filled packetId packetName fs).field name = some f ↔
      ∃ i, LastAt DecodedField.name fs i f ∧ f.name = name) ∧
    ∀ i, ((filled packetId packetName fs).fieldAt i).isSome ↔
      i < (filled packetId packetName fs).fieldCount := by
  refine ⟨fields_filled .., fun _ _ => fieldAt_of_lookup _, isSome_field_iff _, ?_, ?_,
    isSome_fieldAt_iff _⟩
  · intro name
    rw [hasField_iff, fields_filled]
  · intro name f
    rw [field_eq_some_iff, fields_filled]

end DecodedPacket

end IONet.Codec
