import IONet.Schema.Schema
import IONet.Lib.Throwing

namespace IONet

open IONet.Core Lib.Throwing

/-! ### Intermediate representation

An absent text is the empty string, as the format parsers leave it. -/

structure IRBitFlag where
  bit : UInt8 := 0
  name : String := ""
  description : String := ""
  deriving DecidableEq

structure IRScaling where
  scale : Option Double := none
  offset : Option Double := none
  deriving DecidableEq

structure IRConstraints where
  min : Option Double := none
  max : Option Double := none
  deriving DecidableEq

structure IRField where
  name : String := ""
  type : String := ""
  description : String := ""
  unit : String := ""
  scaling : IRScaling := {}
  constraints : IRConstraints := {}
  bitCount : Option UInt8 := none
  bitFlags : List IRBitFlag := []
  size : Option UInt64 := none
  deriving DecidableEq

structure IRPacket where
  id : UInt32 := 0
  name : String := ""
  description : String := ""
  fields : List IRField := []
  deriving DecidableEq

structure IRSchemaInfo where
  name : String := ""
  version : String := ""
  description : String := ""
  byteOrder : String := ""
  deriving DecidableEq

structure IRSchema where
  info : IRSchemaInfo := {}
  packets : List IRPacket := []
  deriving DecidableEq

/-! ### SchemaParserBase

The error of a `throw` is its `what()`. -/

namespace SchemaParserBase

def parseDataType (typeStr : String) : Except String DataType :=
  match typeStr with
  | "int8" => .ok .int8
  | "int16" => .ok .int16
  | "int32" => .ok .int32
  | "int64" => .ok .int64
  | "uint8" => .ok .uint8
  | "uint16" => .ok .uint16
  | "uint32" => .ok .uint32
  | "uint64" => .ok .uint64
  | "float32" => .ok .float32
  | "float64" => .ok .float64
  | "bitfield" => .ok .bitfield
  | "string" => .ok .string
  | _ => .error ("Unknown data type: " ++ typeStr)

def parseByteOrder (orderStr : String) : Except String ByteOrder :=
  match orderStr with
  | "" => .ok .native
  | "big" | "be" | "big_endian" => .ok .big
  | "little" | "le" | "little_endian" => .ok .little
  | "native" => .ok .native
  | _ => .error ("Unknown byte order: " ++ orderStr)

def buildScaling (ir : IRScaling) : Option Scaling :=
  if ir.scale.isSome || ir.offset.isSome then
    some { scale := ir.scale.getD (Double.ofInt 1), offset := ir.offset.getD (Double.ofInt 0) }
  else none

def buildBitFlag (ir : IRBitFlag) : BitFlag where
  bit := ir.bit
  name := ir.name
  description := ir.description

/-- `buildField` once the type is known. -/
def fieldOf (ir : IRField) (type : DataType) : Field where
  name := ir.name
  type := type
  description := ir.description
  unit := some ir.unit
  scaling := buildScaling ir.scaling
  constraints := { min := ir.constraints.min, max := ir.constraints.max }
  bitCount := ir.bitCount
  bitFlags := ir.bitFlags.map buildBitFlag
  stringSize := if type = .string then ir.size else none
  arraySize := if type = .string then none else ir.size

def buildField (ir : IRField) : Except String Field := do
  let type ← parseDataType ir.type
  return fieldOf ir type

def buildPacket (ir : IRPacket) : Except String Packet := do
  let fields ← ir.fields.mapM buildField
  return { id := ir.id, name := ir.name, description := ir.description, fields := fields }

/-- The body of the `try` block up to the validation. -/
def loadSchema (ir : IRSchema) : Except String Schema := do
  let mut schema : Schema := {}
  schema := schema.setInfo
    { name := ir.info.name, version := ir.info.version, description := ir.info.description }
  if ir.info.byteOrder ≠ "" then
    schema := schema.setByteOrder (← parseByteOrder ir.info.byteOrder)
  ir.packets.foldlM
    (fun schema irPacket => do return schema.addPacket (← buildPacket irPacket)) schema

def buildSchema (ir : IRSchema) : Result Schema :=
  match loadSchema ir with
  | .error what => .error ⟨"Schema build error: " ++ what⟩
  | .ok schema =>
    match schema.validate with
    | .error validationError => .error ⟨"Schema validation failed: " ++ validationError⟩
    | .ok () => .ok schema

theorem dataTypeToString_inj {type type' : DataType} :
    dataTypeToString type = dataTypeToString type' ↔ type = type' := by
  cases type <;> cases type' <;> simp [dataTypeToString]

theorem type_eq_iff {ir : IRField} {type : DataType} (htype : ir.type = dataTypeToString type)
    (type' : DataType) : ir.type = dataTypeToString type' ↔ type = type' := by
  rw [htype, dataTypeToString_inj]

theorem parseDataType_eq_ok_iff {typeStr : String} {type : DataType} :
    parseDataType typeStr = .ok type ↔ type ≠ .bytes ∧ typeStr = dataTypeToString type := by
  constructor
  · intro h
    unfold parseDataType at h
    split at h
    all_goals
      cases h
      try exact ⟨nofun, rfl⟩
  · rintro ⟨hbytes, rfl⟩
    cases type with
    | bytes => exact absurd rfl hbytes
    | _ => simp only [dataTypeToString, parseDataType]

def spellings : ByteOrder → List String
  | .big => ["big", "be", "big_endian"]
  | .little => ["little", "le", "little_endian"]
  | .native => ["native"]

theorem parseByteOrder_eq_ok_iff {orderStr : String} (hne : orderStr ≠ "") {order : ByteOrder} :
    parseByteOrder orderStr = .ok order ↔ orderStr ∈ spellings order := by
  constructor
  · intro h
    unfold parseByteOrder at h
    split at h
    · exact absurd rfl hne
    all_goals
      cases h
      try decide
  · intro h
    cases order <;> simp only [spellings, List.mem_cons, List.not_mem_nil, or_false] at h <;>
      rcases h with rfl | rfl | rfl <;> rfl

theorem isSome_buildScaling_iff (ir : IRScaling) :
    (buildScaling ir).isSome ↔ ir.scale.isSome ∨ ir.offset.isSome := by
  rw [← Bool.or_eq_true, buildScaling]
  split_ifs with hgiven <;> simp [hgiven]

theorem parts_of_buildScaling {ir : IRScaling} {s : Scaling} (h : buildScaling ir = some s) :
    s.scale = ir.scale.getD (Double.ofInt 1) ∧ s.offset = ir.offset.getD (Double.ofInt 0) := by
  rw [buildScaling] at h
  split_ifs at h
  cases h
  exact ⟨rfl, rfl⟩

theorem buildField_eq_ok_iff {ir : IRField} {f : Field} :
    buildField ir = .ok f ↔
      ∃ type, type ≠ .bytes ∧ ir.type = dataTypeToString type ∧ f = fieldOf ir type := by
  simp only [buildField, bind_eq_ok_iff, pure_eq_ok_iff, parseDataType_eq_ok_iff, and_assoc]

theorem buildPacket_eq_ok_iff {ir : IRPacket} {p : Packet} :
    buildPacket ir = .ok p ↔
      ∃ fs, List.Forall₂ (fun ir f => buildField ir = .ok f) ir.fields fs ∧
        p = { id := ir.id, name := ir.name, description := ir.description, fields := fs } := by
  simp only [buildPacket, bind_eq_ok_iff, pure_eq_ok_iff, mapM_eq_ok_iff]

def loadByteOrder (ir : IRSchemaInfo) : Except String ByteOrder :=
  if ir.byteOrder ≠ "" then parseByteOrder ir.byteOrder else .ok .big

def schemaInfo (ir : IRSchemaInfo) : SchemaInfo where
  name := ir.name
  version := ir.version
  description := ir.description

theorem loadSchema_eq_ok_iff {ir : IRSchema} {s : Schema} :
    loadSchema ir = .ok s ↔ ∃ order ps, loadByteOrder ir.info = .ok order ∧
      List.Forall₂ (fun ir p => buildPacket ir = .ok p) ir.packets ps ∧
        s = ps.foldl Schema.addPacket
          ((({} : Schema).setInfo (schemaInfo ir.info)).setByteOrder order) := by
  unfold loadSchema loadByteOrder
  split_ifs with horder
  · simp only [bind_eq_ok_iff, foldlM_eq_ok_iff, schemaInfo]
    constructor
    · rintro ⟨order, horder, ps, hps, rfl⟩
      exact ⟨order, ps, horder, hps, rfl⟩
    · rintro ⟨order, ps, horder, hps, rfl⟩
      exact ⟨order, horder, ps, hps, rfl⟩
  · simp only [foldlM_eq_ok_iff, schemaInfo]
    constructor
    · rintro ⟨ps, hps, rfl⟩
      exact ⟨.big, ps, rfl, hps, rfl⟩
    · rintro ⟨_, ps, ⟨⟩, hps, rfl⟩
      exact ⟨ps, hps, rfl⟩

theorem loadSchema_packets {ir : IRSchema} {s : Schema} (h : loadSchema ir = .ok s) :
    List.Forall₂ (fun ir p => buildPacket ir = .ok p) ir.packets s.packets := by
  obtain ⟨order, ps, -, hps, rfl⟩ := loadSchema_eq_ok_iff.mp h
  rwa [Schema.packets_foldl_addPacket]

theorem loadSchema_of_buildSchema {ir : IRSchema} {s : Schema} (h : buildSchema ir = .ok s) :
    loadSchema ir = .ok s ∧ s.validate = .ok () := by
  unfold buildSchema at h
  cases hload : loadSchema ir with
  | error what => simp [hload] at h
  | ok s' =>
    cases hvalidate : s'.validate with
    | error validationError => simp [hload, hvalidate] at h
    | ok =>
      simp only [hload, hvalidate, Except.ok.injEq] at h
      subst h
      exact ⟨rfl, hvalidate⟩

theorem buildSchema_packets {ir : IRSchema} {s : Schema} (h : buildSchema ir = .ok s) :
    List.Forall₂ (fun ir p => buildPacket ir = .ok p) ir.packets s.packets :=
  loadSchema_packets (loadSchema_of_buildSchema h).1

theorem buildSchema_valid {ir : IRSchema} {s : Schema} (h : buildSchema ir = .ok s) : s.Valid :=
  s.validate_eq_ok_iff.mp (loadSchema_of_buildSchema h).2

theorem exists_buildField {ir : IRSchema} {s : Schema} (h : buildSchema ir = .ok s)
    {irPacket : IRPacket} (hirPacket : irPacket ∈ ir.packets) {irField : IRField}
    (hirField : irField ∈ irPacket.fields) : ∃ f, buildField irField = .ok f := by
  obtain ⟨p, -, hp⟩ := exists_of_mem (buildSchema_packets h) hirPacket
  obtain ⟨fs, hfs, -⟩ := buildPacket_eq_ok_iff.mp hp
  obtain ⟨f, -, hf⟩ := exists_of_mem hfs hirField
  exact ⟨f, hf⟩

theorem forall_fields_iff {ir : IRSchema} {s : Schema} (h : buildSchema ir = .ok s)
    (P : Field → Prop) :
    (∀ p ∈ s.packets, ∀ f ∈ p.fields, P f) ↔
      ∀ irPacket ∈ ir.packets, ∀ irField ∈ irPacket.fields,
        ∀ f, buildField irField = .ok f → P f := by
  have hpackets := buildSchema_packets h
  constructor
  · intro hP irPacket hirPacket irField hirField f hf
    obtain ⟨p, hp, hbuild⟩ := exists_of_mem hpackets hirPacket
    obtain ⟨fs, hfs, rfl⟩ := buildPacket_eq_ok_iff.mp hbuild
    obtain ⟨f', hf', hbuild'⟩ := exists_of_mem hfs hirField
    cases hf.symm.trans hbuild'
    exact hP _ hp f hf'
  · intro hP p hp f hf
    obtain ⟨irPacket, hirPacket, hbuild⟩ := exists_of_mem_results hpackets hp
    obtain ⟨fs, hfs, rfl⟩ := buildPacket_eq_ok_iff.mp hbuild
    obtain ⟨irField, hirField, hbuild'⟩ := exists_of_mem_results hfs hf
    exact hP irPacket hirPacket irField hirField f hbuild'

end SchemaParserBase

end IONet
