import IONet.Accepted.Language

namespace IONet.Accepted

open IONet.Core SchemaParserBase Lib.Throwing

def Typed (ir : IRField) : Prop := (∃ type, ir.type = dataTypeToString type) ∧ ir.type ≠ "bytes"

def Ordered (ir : IRSchemaInfo) : Prop :=
  ir.byteOrder = "" ∨ ∃ order, ir.byteOrder ∈ spellings order

structure Loads (ir : IRSchema) : Prop where
  byteOrder : Ordered ir.info
  types : ∀ irField ∈ ir.packets.flatMap IRPacket.fields, Typed irField

/-- What is reported of a configuration, in the order of the checks. -/
inductive Refused (ir : IRSchema) : String → Prop
  | byteOrder (horder : ¬Ordered ir.info) :
      Refused ir ("Schema build error: " ++ ("Unknown byte order: " ++ ir.info.byteOrder))
  | type (horder : Ordered ir.info) {pre post : List IRField} {irField : IRField}
      (hfields : ir.packets.flatMap IRPacket.fields = pre ++ irField :: post)
      (hpre : ∀ before ∈ pre, Typed before) (htype : ¬Typed irField) :
      Refused ir ("Schema build error: " ++ ("Unknown data type: " ++ irField.type))
  | ids (hloads : Loads ir) (hids : ¬(ir.packets.map IRPacket.id).Nodup) :
      Refused ir ("Schema validation failed: " ++ "Duplicate packet IDs detected")
  | names (hloads : Loads ir) (hids : (ir.packets.map IRPacket.id).Nodup)
      (hnames : ¬(ir.packets.map IRPacket.name).Nodup) :
      Refused ir ("Schema validation failed: " ++ "Duplicate packet names detected")
  | fields (hloads : Loads ir) (hids : (ir.packets.map IRPacket.id).Nodup)
      (hnames : (ir.packets.map IRPacket.name).Nodup) {pre post : List IRPacket}
      {irPacket : IRPacket}
      (hpackets : ir.packets = pre ++ irPacket :: post) (hpre : ∀ before ∈ pre, before.fields ≠ [])
      (hfields : irPacket.fields = []) :
      Refused ir
        ("Schema validation failed: " ++ ("Packet '" ++ irPacket.name ++ "' has no fields"))

variable {ir : IRSchema} {what : String}

theorem parseDataType_error (typeStr : String) {what : String}
    (h : parseDataType typeStr = .error what) : what = "Unknown data type: " ++ typeStr := by
  unfold parseDataType at h
  split at h <;> cases h
  rfl

theorem parseByteOrder_error (orderStr : String) {what : String}
    (h : parseByteOrder orderStr = .error what) : what = "Unknown byte order: " ++ orderStr := by
  unfold parseByteOrder at h
  split at h <;> cases h
  rfl

theorem decided_buildField (what : String) (ir : IRField) :
    Decided what (Typed ir) (¬Typed ir ∧ what = "Unknown data type: " ++ ir.type)
      (buildField ir) := by
  refine Decided.of_error builds_iff (fun what' h => ?_) what
  rw [buildField] at h
  cases htype : parseDataType ir.type with
  | ok type =>
    rw [htype] at h
    cases h
  | error what'' =>
    rw [htype] at h
    cases h
    exact parseDataType_error ir.type htype

theorem decided_loadByteOrder (what : String) (ir : IRSchemaInfo) :
    Decided what (Ordered ir) (¬Ordered ir ∧ what = "Unknown byte order: " ++ ir.byteOrder)
      (loadByteOrder ir) := by
  refine Decided.of_error loadsByteOrder_iff (fun what' h => ?_) what
  unfold loadByteOrder at h
  split_ifs at h
  exact parseByteOrder_error ir.byteOrder h

theorem decided_buildPacket (what : String) (ir : IRPacket) :
    Decided what (∀ irField ∈ ir.fields, Typed irField)
      (FirstBad Typed (fun irField => ¬Typed irField ∧ what = "Unknown data type: " ++ irField.type)
        ir.fields) (buildPacket ir) :=
  (Decided.mapM (decided_buildField what) ir.fields).map _

theorem loadSchema_eq (ir : IRSchema) : loadSchema ir = loadByteOrder ir.info >>= fun order =>
    ir.packets.foldlM (fun schema irPacket => do return schema.addPacket (← buildPacket irPacket))
      ((({} : Schema).setInfo (schemaInfo ir.info)).setByteOrder order) := by
  unfold loadSchema loadByteOrder
  split_ifs <;> rfl

theorem loads_iff : Loads ir ↔
    Ordered ir.info ∧ ∀ irPacket ∈ ir.packets, ∀ irField ∈ irPacket.fields, Typed irField := by
  constructor
  · rintro ⟨horder, htypes⟩
    exact ⟨horder, fun irPacket hpacket irField hfield =>
      htypes irField (List.mem_flatMap.mpr ⟨irPacket, hpacket, hfield⟩)⟩
  · rintro ⟨horder, htypes⟩
    refine ⟨horder, fun irField hfield => ?_⟩
    obtain ⟨irPacket, hpacket, hfield⟩ := List.mem_flatMap.mp hfield
    exact htypes irPacket hpacket irField hfield

theorem decided_loadSchema (what : String) (ir : IRSchema) :
    Decided what (Loads ir)
      ((¬Ordered ir.info ∧ what = "Unknown byte order: " ++ ir.info.byteOrder) ∨
      Ordered ir.info ∧ FirstBad Typed (fun irField => ¬Typed irField ∧
        what = "Unknown data type: " ++ irField.type) (ir.packets.flatMap IRPacket.fields))
      (loadSchema ir) := by
  rw [loadSchema_eq, firstBad_flatMap_iff]
  exact ((decided_loadByteOrder what ir.info).bind fun order _ =>
    Decided.foldlM (decided_buildPacket what) _ ir.packets _).congr loads_iff.symm Iff.rfl

theorem validate_error_iff (s : Schema) (why : String) : s.validate = .error why ↔
    (¬(s.packets.map Packet.id).Nodup ∧ why = "Duplicate packet IDs detected") ∨
    (s.packets.map Packet.id).Nodup ∧ ((¬(s.packets.map Packet.name).Nodup ∧
      why = "Duplicate packet names detected") ∨
    (s.packets.map Packet.name).Nodup ∧ FirstBad (fun p : Packet => p.fields ≠ [])
      (fun p => p.fields = [] ∧ why = "Packet '" ++ p.name ++ "' has no fields") s.packets) := by
  have hids := s.idIndexed.length_keys_iff
  have hnames := s.nameIndexed.length_keys_iff
  rw [List.length_map] at hids hnames
  have hempty : FirstBad (fun p : Packet => p.fields ≠ [])
      (fun p => p.fields = [] ∧ why = "Packet '" ++ p.name ++ "' has no fields") s.packets ↔
      ∃ p, (s.packets.find? fun packet => packet.fields.isEmpty) = some p ∧
        why = "Packet '" ++ p.name ++ "' has no fields" := by
    rw [← firstBad_iff_find]
    simp
  rw [← hids, ← hnames, hempty, Schema.validate]
  by_cases hid : s.idIndex.keys.length = s.packets.length
  · by_cases hname : s.nameIndex.keys.length = s.packets.length
    · cases hfind : s.packets.find? fun packet => packet.fields.isEmpty <;>
        simp [hid, hname, eq_comm]
    · simp [hid, hname, eq_comm]
  · simp [hid, eq_comm]

theorem checked_iff {s : Schema} (h : loadSchema ir = .ok s) (why : String) :
    s.validate = .error why ↔
    (¬(ir.packets.map IRPacket.id).Nodup ∧ why = "Duplicate packet IDs detected") ∨
    (ir.packets.map IRPacket.id).Nodup ∧ ((¬(ir.packets.map IRPacket.name).Nodup ∧
      why = "Duplicate packet names detected") ∨
    (ir.packets.map IRPacket.name).Nodup ∧
      FirstBad (fun irPacket : IRPacket => irPacket.fields ≠ [])
        (fun irPacket => irPacket.fields = [] ∧
        why = "Packet '" ++ irPacket.name ++ "' has no fields") ir.packets) := by
  have hpackets := loadSchema_packets h
  have hmatches : ∀ irPacket p, buildPacket irPacket = .ok p → PacketMatches irPacket p :=
    fun _ _ hbuild => packetMatches_of_buildPacket hbuild
  have hids : s.packets.map Packet.id = ir.packets.map IRPacket.id :=
    map_results_eq hpackets fun _ _ hbuild => (hmatches _ _ hbuild).id
  have hnames : s.packets.map Packet.name = ir.packets.map IRPacket.name :=
    map_results_eq hpackets fun _ _ hbuild => (hmatches _ _ hbuild).name
  have hempty : ∀ irPacket p, buildPacket irPacket = .ok p →
      (irPacket.fields = [] ↔ p.fields = []) := by
    intro irPacket p hbuild
    rw [← List.length_eq_zero_iff, ← List.length_eq_zero_iff,
      (hmatches _ _ hbuild).fields.length_eq]
  rw [validate_error_iff, hids, hnames, firstBad_iff_of_forall₂ hpackets]
  · exact fun irPacket p hbuild => not_congr (hempty irPacket p hbuild)
  · intro irPacket p hbuild
    rw [hempty irPacket p hbuild, (hmatches _ _ hbuild).name]

theorem refused_iff {message : String} : Refused ir message ↔
    (∃ what, loadSchema ir = .error what ∧ message = "Schema build error: " ++ what) ∨
      ∃ s why, loadSchema ir = .ok s ∧ s.validate = .error why ∧
        message = "Schema validation failed: " ++ why := by
  have hreturns := (decided_loadSchema "" ir).returns
  constructor
  · intro h
    cases h with
    | byteOrder horder =>
      exact .inl ⟨_, (decided_loadSchema _ ir).throws.mpr (.inl ⟨horder, rfl⟩), rfl⟩
    | type horder hfields hpre htype =>
      have hthrows := (decided_loadSchema _ ir).throws.mpr
        (.inr ⟨horder, _, _, _, hfields, hpre, htype, rfl⟩)
      exact .inl ⟨_, hthrows, rfl⟩
    | ids hloads hids =>
      obtain ⟨s, hs⟩ := hreturns.mpr hloads
      exact .inr ⟨s, _, hs, (checked_iff hs _).mpr (.inl ⟨hids, rfl⟩), rfl⟩
    | names hloads hids hnames =>
      obtain ⟨s, hs⟩ := hreturns.mpr hloads
      exact .inr ⟨s, _, hs, (checked_iff hs _).mpr (.inr ⟨hids, .inl ⟨hnames, rfl⟩⟩), rfl⟩
    | fields hloads hids hnames hpackets hpre hfields =>
      obtain ⟨s, hs⟩ := hreturns.mpr hloads
      have hchecked := (checked_iff hs _).mpr
        (.inr ⟨hids, .inr ⟨hnames, _, _, _, hpackets, hpre, hfields, rfl⟩⟩)
      exact .inr ⟨s, _, hs, hchecked, rfl⟩
  · rintro (⟨what, hload, rfl⟩ | ⟨s, why, hload, hvalidate, rfl⟩)
    · rcases (decided_loadSchema what ir).throws.mp hload with
        ⟨horder, rfl⟩ | ⟨horder, pre, irField, post, hfields, hpre, htype, rfl⟩
      · exact .byteOrder horder
      · exact .type horder hfields hpre htype
    · have hloads := hreturns.mp ⟨s, hload⟩
      rcases (checked_iff hload why).mp hvalidate with ⟨hids, rfl⟩ | ⟨hids, ⟨hnames, rfl⟩ |
        ⟨hnames, pre, irPacket, post, hpackets, hpre, hfields, rfl⟩⟩
      · exact .ids hloads hids
      · exact .names hloads hids hnames
      · exact .fields hloads hids hnames hpackets hpre hfields

theorem buildSchema_eq_error_iff {e : Error} : buildSchema ir = .error e ↔
    (∃ what, loadSchema ir = .error what ∧ e.message = "Schema build error: " ++ what) ∨
      ∃ s why, loadSchema ir = .ok s ∧ s.validate = .error why ∧
        e.message = "Schema validation failed: " ++ why := by
  cases e with
  | mk message =>
    unfold buildSchema
    cases hload : loadSchema ir with
    | error what => simp [eq_comm]
    | ok s => cases hvalidate : s.validate <;> simp [hvalidate, eq_comm]

/-- A configuration is refused with the first thing that is wrong with it, in
the order of the checks: the byte order, the types of the fields as they stand,
the ids, the names, and packets without fields. -/
theorem buildSchema_error_iff (ir : IRSchema) (e : Error) :
    buildSchema ir = .error e ↔ Refused ir e.message := by
  rw [buildSchema_eq_error_iff, refused_iff]

end IONet.Accepted
