import IONet.Schema.SchemaParser

namespace IONet.Accepted

open IONet.Core SchemaParserBase Lib.Throwing

structure FieldMatches (ir : IRField) (f : Field) : Prop where
  name : f.name = ir.name
  type : dataTypeToString f.type = ir.type
  description : f.description = ir.description
  unit : f.unit = some ir.unit
  min : f.constraints.min = ir.constraints.min
  max : f.constraints.max = ir.constraints.max
  bitCount : f.bitCount = ir.bitCount
  bitFlags : List.Forall₂ (fun irFlag flag => flag.bit = irFlag.bit ∧ flag.name = irFlag.name ∧
    flag.description = irFlag.description) ir.bitFlags f.bitFlags
  scaled : f.scaling.isSome ↔ ir.scaling.scale.isSome ∨ ir.scaling.offset.isSome
  scaling : ∀ s, f.scaling = some s → s.scale = ir.scaling.scale.getD (Double.ofInt 1) ∧
    s.offset = ir.scaling.offset.getD (Double.ofInt 0)
  stringSize : f.stringSize = if ir.type = "string" then ir.size else none
  arraySize : f.arraySize = if ir.type = "string" then none else ir.size

structure PacketMatches (ir : IRPacket) (p : Packet) : Prop where
  id : p.id = ir.id
  name : p.name = ir.name
  description : p.description = ir.description
  fields : List.Forall₂ FieldMatches ir.fields p.fields

def OrderMatches (ir : IRSchemaInfo) (order : ByteOrder) : Prop :=
  if ir.byteOrder = "" then order = .big else ir.byteOrder ∈ spellings order

structure SchemaMatches (ir : IRSchema) (s : Schema) : Prop where
  info : s.info = schemaInfo ir.info
  byteOrder : OrderMatches ir.info s.byteOrder
  packets : List.Forall₂ PacketMatches ir.packets s.packets
  lookup : ∀ (i : Nat) (irPacket : IRPacket), ir.packets[i]? = some irPacket →
    s.idIndex.lookup irPacket.id = some i ∧ s.nameIndex.lookup irPacket.name = some i ∧
      ∃ p, s.packets[i]? = some p ∧ PacketMatches irPacket p ∧
        s.findPacketById irPacket.id = some p ∧ s.findPacketByName irPacket.name = some p

theorem fieldMatches_of_buildField {ir : IRField} {f : Field} (h : buildField ir = .ok f) :
    FieldMatches ir f := by
  obtain ⟨type, -, htype, rfl⟩ := buildField_eq_ok_iff.mp h
  have hstring : ir.type = "string" ↔ type = .string := type_eq_iff htype .string
  have hflags : List.Forall₂ (fun irFlag flag => flag.bit = irFlag.bit ∧ flag.name = irFlag.name ∧
      flag.description = irFlag.description) ir.bitFlags (ir.bitFlags.map buildBitFlag) := by
    rw [List.forall₂_map_right_iff]
    exact List.forall₂_same.mpr fun _ _ => ⟨rfl, rfl, rfl⟩
  exact {
    name := rfl
    type := htype.symm
    description := rfl
    unit := rfl
    min := rfl
    max := rfl
    bitCount := rfl
    bitFlags := hflags
    scaled := isSome_buildScaling_iff ir.scaling
    scaling := fun _ => parts_of_buildScaling
    stringSize := by simp only [fieldOf, hstring]
    arraySize := by simp only [fieldOf, hstring] }

theorem packetMatches_of_buildPacket {ir : IRPacket} {p : Packet} (h : buildPacket ir = .ok p) :
    PacketMatches ir p := by
  obtain ⟨fs, hfs, rfl⟩ := buildPacket_eq_ok_iff.mp h
  exact ⟨rfl, rfl, rfl, hfs.imp fun _ _ => fieldMatches_of_buildField⟩

theorem orderMatches_iff {ir : IRSchemaInfo} {order : ByteOrder} :
    loadByteOrder ir = .ok order ↔ OrderMatches ir order := by
  unfold loadByteOrder OrderMatches
  by_cases hempty : ir.byteOrder = ""
  · simp [hempty, eq_comm]
  · simp [hempty, parseByteOrder_eq_ok_iff hempty]

theorem schemaMatches_of_buildSchema {ir : IRSchema} {s : Schema} (h : buildSchema ir = .ok s) :
    SchemaMatches ir s := by
  have hpackets : List.Forall₂ PacketMatches ir.packets s.packets :=
    (buildSchema_packets h).imp fun _ _ => packetMatches_of_buildPacket
  have hvalid := buildSchema_valid h
  obtain ⟨order, ps, horder, -, hs⟩ := loadSchema_eq_ok_iff.mp (loadSchema_of_buildSchema h).1
  refine ⟨?_, ?_, hpackets, fun i irPacket hi => ?_⟩
  · rw [hs, Schema.info_foldl_addPacket]
    rfl
  · rw [hs, Schema.byteOrder_foldl_addPacket]
    exact orderMatches_iff.mp horder
  · obtain ⟨hlt, hget⟩ := List.getElem?_eq_some_iff.mp hi
    have hlt' : i < s.packets.length := hpackets.length_eq ▸ hlt
    have hp : s.packets[i]? = some s.packets[i] := List.getElem?_eq_getElem hlt'
    have hmatches : PacketMatches irPacket s.packets[i] := hget ▸ hpackets.get hlt hlt'
    have hmem := List.mem_of_getElem? hp
    rw [← hmatches.id, ← hmatches.name]
    obtain ⟨hid, hname⟩ := Schema.lookup_of_valid hvalid hp
    exact ⟨hid, hname, _, hp, hmatches, Schema.findPacketById_of_mem hvalid hmem,
      Schema.findPacketByName_of_mem hvalid hmem⟩

/-- Building either gives a schema that matches the configuration, or an error:
what the loading throws is caught, and what the validation finds is reported. -/
theorem buildSchema_faithful (ir : IRSchema) :
    (∀ s, buildSchema ir = .ok s → SchemaMatches ir s) ∧
    (∀ e, buildSchema ir = .error e →
      (∃ what, loadSchema ir = .error what ∧ e.message = "Schema build error: " ++ what) ∨
      ∃ s why, loadSchema ir = .ok s ∧ s.validate = .error why ∧
        e.message = "Schema validation failed: " ++ why) := by
  refine ⟨fun s => schemaMatches_of_buildSchema, fun e h => ?_⟩
  rw [buildSchema] at h
  cases hload : loadSchema ir with
  | error what =>
    rw [hload] at h
    cases h
    exact .inl ⟨what, rfl, rfl⟩
  | ok s =>
    cases hvalidate : s.validate with
    | error why =>
      simp only [hload, hvalidate, Except.error.injEq] at h
      subst h
      exact .inr ⟨s, why, rfl, hvalidate, rfl⟩
    | ok => simp [hload, hvalidate] at h

/-- The configurations that the documentation allows. -/
structure Documented (ir : IRSchema) : Prop where
  types : ∀ irPacket ∈ ir.packets, ∀ irField ∈ irPacket.fields,
    ∃ type, irField.type = dataTypeToString type
  byteOrder : ir.info.byteOrder = "" ∨ ∃ order, ir.info.byteOrder ∈ spellings order
  ids : (ir.packets.map IRPacket.id).Nodup
  names : (ir.packets.map IRPacket.name).Nodup
  fields : ∀ irPacket ∈ ir.packets, irPacket.fields ≠ []

def NoBytes (ir : IRSchema) : Prop :=
  ∀ irPacket ∈ ir.packets, ∀ irField ∈ irPacket.fields, irField.type ≠ "bytes"

theorem builds_iff {ir : IRField} :
    (∃ f, buildField ir = .ok f) ↔ (∃ type, ir.type = dataTypeToString type) ∧
      ir.type ≠ "bytes" := by
  constructor
  · rintro ⟨f, hf⟩
    obtain ⟨type, hbytes, htype, rfl⟩ := buildField_eq_ok_iff.mp hf
    exact ⟨⟨type, htype⟩, mt (type_eq_iff htype .bytes).mp hbytes⟩
  · rintro ⟨⟨type, htype⟩, hbytes⟩
    have hne : type ≠ .bytes := mt (type_eq_iff htype .bytes).mpr hbytes
    exact ⟨_, buildField_eq_ok_iff.mpr ⟨type, hne, htype, rfl⟩⟩

theorem packetBuilds_iff {ir : IRPacket} :
    (∃ p, buildPacket ir = .ok p) ↔ ∀ irField ∈ ir.fields, ∃ f, buildField irField = .ok f := by
  rw [← exists_results_iff]
  constructor
  · rintro ⟨p, hp⟩
    obtain ⟨fs, hfs, -⟩ := buildPacket_eq_ok_iff.mp hp
    exact ⟨fs, hfs⟩
  · rintro ⟨fs, hfs⟩
    exact ⟨_, buildPacket_eq_ok_iff.mpr ⟨fs, hfs, rfl⟩⟩

theorem loadsByteOrder_iff {ir : IRSchemaInfo} : (∃ order, loadByteOrder ir = .ok order) ↔
    ir.byteOrder = "" ∨ ∃ order, ir.byteOrder ∈ spellings order := by
  simp only [orderMatches_iff, OrderMatches]
  by_cases hempty : ir.byteOrder = ""
  · simp [hempty]
  · simp [hempty]

theorem valid_iff {ir : IRSchema} {s : Schema} (h : loadSchema ir = .ok s) :
    s.Valid ↔ (ir.packets.map IRPacket.id).Nodup ∧ (ir.packets.map IRPacket.name).Nodup ∧
      ∀ irPacket ∈ ir.packets, irPacket.fields ≠ [] := by
  have hpackets := loadSchema_packets h
  have hmatches {irPacket : IRPacket} {p : Packet} (hbuild : buildPacket irPacket = .ok p) :
      PacketMatches irPacket p := packetMatches_of_buildPacket hbuild
  have hids : s.packets.map Packet.id = ir.packets.map IRPacket.id :=
    map_results_eq hpackets fun _ _ hbuild => (hmatches hbuild).id
  have hnames : s.packets.map Packet.name = ir.packets.map IRPacket.name :=
    map_results_eq hpackets fun _ _ hbuild => (hmatches hbuild).name
  have hfields : s.packets.map (fun p => p.fields.length) =
      ir.packets.map fun irPacket => irPacket.fields.length :=
    map_results_eq hpackets fun _ _ hbuild => (hmatches hbuild).fields.length_eq.symm
  have hempty : (∀ p ∈ s.packets, p.fields ≠ []) ↔
      ∀ irPacket ∈ ir.packets, irPacket.fields ≠ [] := by
    have hp : (∀ p ∈ s.packets, p.fields ≠ []) ↔ 0 ∉ s.packets.map fun p => p.fields.length := by
      simp
    have hir : (∀ irPacket ∈ ir.packets, irPacket.fields ≠ []) ↔
        0 ∉ ir.packets.map fun irPacket => irPacket.fields.length := by
      simp
    rw [hp, hir, hfields]
  rw [← hids, ← hnames, ← hempty]
  exact ⟨fun hv => ⟨hv.ids, hv.names, hv.fields⟩, fun ⟨hi, hn, hf⟩ => ⟨hi, hn, hf⟩⟩

theorem accepts_iff {ir : IRSchema} :
    (∃ s, buildSchema ir = .ok s) ↔ Documented ir ∧ NoBytes ir := by
  have hbuilds : (∀ irPacket ∈ ir.packets, ∃ p, buildPacket irPacket = .ok p) ↔
      (∀ irPacket ∈ ir.packets, ∀ irField ∈ irPacket.fields,
        ∃ type, irField.type = dataTypeToString type) ∧ NoBytes ir := by
    simp only [packetBuilds_iff, builds_iff, NoBytes, forall_and]
  constructor
  · rintro ⟨s, hs⟩
    obtain ⟨hload, -⟩ := loadSchema_of_buildSchema hs
    obtain ⟨hids, hnames, hfields⟩ := (valid_iff hload).mp (buildSchema_valid hs)
    obtain ⟨order, ps, horder, hps, -⟩ := loadSchema_eq_ok_iff.mp hload
    obtain ⟨htypes, hbytes⟩ := hbuilds.mp (exists_results_iff.mp ⟨ps, hps⟩)
    exact ⟨⟨htypes, loadsByteOrder_iff.mp ⟨order, horder⟩, hids, hnames, hfields⟩, hbytes⟩
  · rintro ⟨hdoc, hbytes⟩
    obtain ⟨ps, hps⟩ := exists_results_iff.mpr (hbuilds.mpr ⟨hdoc.types, hbytes⟩)
    obtain ⟨order, horder⟩ := loadsByteOrder_iff.mpr hdoc.byteOrder
    have hload := loadSchema_eq_ok_iff.mpr ⟨order, ps, horder, hps, rfl⟩
    have hvalid := (valid_iff hload).mpr ⟨hdoc.ids, hdoc.names, hdoc.fields⟩
    have hvalidate := (Schema.validate_eq_ok_iff _).mpr hvalid
    refine ⟨ps.foldl Schema.addPacket
      ((({} : Schema).setInfo (schemaInfo ir.info)).setByteOrder order), ?_⟩
    simp only [buildSchema, hload, hvalidate]

/-- The parser of the type names has no entry for `bytes`, and is right on all
the others. -/
theorem buildSchema_documented_iff (ir : IRSchema) :
    (((∃ s, buildSchema ir = .ok s) ↔ Documented ir) ↔ ¬Documented ir ∨ NoBytes ir) ∧
    ∀ (irField : IRField) (type : DataType), irField.type = dataTypeToString type →
      ((∃ f, buildField irField = .ok f) ↔ irField.type ≠ "bytes") ∧
        ∀ f, buildField irField = .ok f → f.type = type := by
  constructor
  · rw [accepts_iff]
    tauto
  · intro irField type htype
    constructor
    · rw [builds_iff]
      exact and_iff_right ⟨type, htype⟩
    · intro f hf
      exact dataTypeToString_inj.mp ((fieldMatches_of_buildField hf).type.trans htype)

def blob : IRSchema where
  packets := [
    { id := 1
      name := "blob"
      fields := [{ name := "payload", type := "bytes", size := some 4 }] }]

theorem blob_documented_not_built :
    Documented blob ∧ ¬∃ s, buildSchema blob = .ok s := by
  constructor
  · exact {
      types := by
        simp only [blob, List.forall_mem_singleton]
        exact ⟨.bytes, rfl⟩
      byteOrder := .inl rfl
      ids := by simp [blob]
      names := by simp [blob]
      fields := by simp [blob] }
  · rintro ⟨s, hs⟩
    have hbytes := (accepts_iff.mp ⟨s, hs⟩).2
    exact hbytes _ List.mem_cons_self _ List.mem_cons_self rfl

end IONet.Accepted
