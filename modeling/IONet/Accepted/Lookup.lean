import IONet.Codec.Streaming
import IONet.Schema.SchemaParser

namespace IONet.Accepted

open IONet.Core Codec Codec.Decoder SchemaParserBase Lib.LastIndex

structure DecodedFrom (host : Host) (d : Decoder) (p : Packet) (data : List UInt8) (i : Nat)
    (f : Field) (field : DecodedField) : Prop where
  name : field.name = f.name
  type : field.type = f.type
  unit : field.unit = f.unit.getD ""
  scaling : field.scaledValue = d.scaledValue f field.rawValue
  bytes : (typedRead host f d.schema.byteOrder ⟨data, offset p.fields i⟩).1 = .ok field.rawValue

/-- The name means the same field before and after decoding. -/
structure SameField (host : Host) (d : Decoder) (p : Packet) (data : List UInt8)
    (packet : DecodedPacket) (name : String) : Prop where
  absent : packet.field name = none ↔ p.findField name = none
  found : ∀ f, p.findField name = some f → ∃ (i : Nat) (field : DecodedField),
    (p.fieldIndex name).toInt = i ∧ p.fields[i]? = some f ∧
      packet.fieldIndex.lookup name = some i ∧ packet.fieldAt i = some field ∧
      packet.field name = some field ∧ DecodedFrom host d p data i f field

theorem findField_eq (p : Packet) (name : String) :
    p.findField name = ((p.fields.map Field.name).idxOf? name).bind fun i => p.fields[i]? :=
  find?_eq_idxOf? Field.name p.fields name

theorem fieldIndex_eq (p : Packet) (name : String) :
    p.fieldIndex name = ((p.fields.map Field.name).idxOf? name).elim (-1) Int32.ofNat := by
  have hidx : (p.fields.map Field.name).idxOf? name = p.fields.findIdx? fun f => f.name = name := by
    simp [List.idxOf?, List.findIdx?_map, Function.comp_def, beq_eq_decide]
  rw [hidx, Packet.fieldIndex]
  cases p.fields.findIdx? fun f => f.name = name <;> rfl

theorem toInt_ofNat_eq_iff (i : Nat) : (Int32.ofNat i).toInt = i ↔ i < 2 ^ 31 := by
  constructor
  · intro h
    have hlt := Int32.toInt_lt (Int32.ofNat i)
    omega
  · exact Int32.toInt_ofNat_of_lt

theorem toInt_ofNat_le (i : Nat) : (Int32.ofNat i).toInt ≤ i := by
  have hsize : Int32.size = 2 ^ 32 := rfl
  rw [Int32.toInt_ofNat', hsize, Int.bmod_def]
  split <;> omega

section

variable {host : Host} {d : Decoder} {p : Packet} {data : List UInt8} {packet : DecodedPacket}

structure InPlace (host : Host) (d : Decoder) (p : Packet) (data : List UInt8)
    (packet : DecodedPacket) : Prop where
  decoded : ∀ i f, p.fields[i]? = some f →
    ∃ field, packet.fields[i]? = some field ∧ DecodedFrom host d p data i f field
  indexed : Indexes packet.fieldIndex (p.fields.map Field.name)

theorem inPlace_of_decode (hstop : d.options.stopOnError = true)
    (hid : d.schema.findPacketById p.id = some p) (hlen : data.length < 2 ^ 63)
    (h : decodeData host d p.id data = .ok packet) : InPlace host d p data packet := by
  have hdecode : decode host d p.id ⟨data, 0⟩ = (.ok packet, (decode host d p.id ⟨data, 0⟩).2) :=
    Prod.ext h rfl
  obtain ⟨hlength, hfields⟩ := decode_fields hstop hid (.mk_zero hlen) hdecode
  have hnames : packet.fields.map DecodedField.name = p.fields.map Field.name := by
    refine List.ext_getElem? fun i => ?_
    rw [List.getElem?_map, List.getElem?_map]
    cases hi : p.fields[i]? with
    | none => rw [List.getElem?_eq_none (hlength ▸ List.getElem?_eq_none_iff.mp hi)]; rfl
    | some f =>
      obtain ⟨raw, hfield, -⟩ := hfields i f hi
      rw [hfield]
      rfl
  refine ⟨fun i f hi => ?_, hnames ▸ packet.indexed⟩
  obtain ⟨raw, hfield, hraw, -⟩ := hfields i f hi
  rw [Nat.zero_add] at hraw
  exact ⟨_, hfield, rfl, rfl, rfl, rfl, hraw⟩

theorem lookup_of_sameField (hplace : InPlace host d p data packet) {name : String}
    (h : SameField host d p data packet name) {i : Nat}
    (hfirst : (p.fields.map Field.name).idxOf? name = some i) :
    packet.fieldIndex.lookup name = some i ∧ (Int32.ofNat i).toInt = i := by
  obtain ⟨hlt, hname, -⟩ := List.idxOf?_eq_some_iff.mp hfirst
  rw [List.length_map] at hlt
  have hfind : p.findField name = some p.fields[i] := by
    rw [findField_eq, hfirst, Option.bind_some, List.getElem?_eq_getElem hlt]
  obtain ⟨j, -, hint, -, hlook, -⟩ := h.found _ hfind
  rw [fieldIndex_eq, hfirst, Option.elim_some] at hint
  have hle := toInt_ofNat_le i
  have hnotlt : ¬j < i := fun hji => by
    refine (hplace.indexed.lookup_eq_some_iff.mp hlook).2 i hji ?_
    exact List.getElem?_eq_some_iff.mpr ⟨by rwa [List.length_map], hname⟩
  have hji : j = i := by omega
  exact ⟨hji ▸ hlook, hji ▸ hint⟩

theorem nodup_of_sameField (hplace : InPlace host d p data packet)
    (h : ∀ name, SameField host d p data packet name) :
    (p.fields.map Field.name).Nodup ∧ p.fields.length ≤ 2 ^ 31 := by
  have hnodup : (p.fields.map Field.name).Nodup := by
    refine hplace.indexed.idxOf?_eq_lookup_iff.mp fun name => ?_
    cases hfirst : (p.fields.map Field.name).idxOf? name with
    | none => exact (hplace.indexed.lookup_eq_none_iff.mpr (List.idxOf?_eq_none_iff.mp hfirst)).symm
    | some i => exact (lookup_of_sameField hplace (h name) hfirst).1.symm
  refine ⟨hnodup, ?_⟩
  by_contra hlong
  have hlt : 2 ^ 31 < (p.fields.map Field.name).length := by
    rw [List.length_map]
    omega
  have hlook := hplace.indexed.lookup_of_getElem? hnodup (List.getElem?_eq_getElem hlt)
  rw [← hplace.indexed.idxOf?_eq_lookup_iff.mpr hnodup] at hlook
  have hpos := (lookup_of_sameField hplace (h _) hlook).2
  exact absurd ((toInt_ofNat_eq_iff _).mp hpos) (lt_irrefl _)

theorem sameField_of_nodup (hplace : InPlace host d p data packet)
    (hnodup : (p.fields.map Field.name).Nodup) (hlong : p.fields.length ≤ 2 ^ 31) (name : String) :
    SameField host d p data packet name := by
  have hlook := hplace.indexed.idxOf?_eq_lookup_iff.mpr hnodup name
  have hfield : packet.field name =
      (packet.fieldIndex.lookup name).bind fun i => packet.fields[i]? := rfl
  cases hfirst : (p.fields.map Field.name).idxOf? name with
  | none =>
    rw [hfirst] at hlook
    have hnone : p.findField name = none := by rw [findField_eq, hfirst, Option.bind_none]
    have hdecoded : packet.field name = none := by rw [hfield, ← hlook, Option.bind_none]
    refine ⟨iff_of_true hdecoded hnone, fun f hf => ?_⟩
    rw [hnone] at hf
    cases hf
  | some i =>
    rw [hfirst] at hlook
    obtain ⟨hlt, -, -⟩ := List.idxOf?_eq_some_iff.mp hfirst
    rw [List.length_map] at hlt
    have hi : p.fields[i]? = some p.fields[i] := List.getElem?_eq_getElem hlt
    obtain ⟨field, hget, hfrom⟩ := hplace.decoded i _ hi
    have hfind : p.findField name = some p.fields[i] := by
      rw [findField_eq, hfirst, Option.bind_some, hi]
    have hdecoded : packet.field name = some field := by
      rw [hfield, ← hlook, Option.bind_some, hget]
    refine ⟨by rw [hfind, hdecoded]; simp, fun f hf => ?_⟩
    cases hfind.symm.trans hf
    refine ⟨i, field, ?_, hi, hlook.symm, hget, hdecoded, hfrom⟩
    rw [fieldIndex_eq, hfirst, Option.elim_some]
    exact (toInt_ofNat_eq_iff i).mpr (by omega)

/-- Loading does not look at the names of fields.  Where two share one, the
definition gives the first and the decoded packet the last. -/
theorem decodeData_sameField_iff (host : Host) {ir : IRSchema} (h : buildSchema ir = .ok d.schema)
    (hstop : d.options.stopOnError = true) (hp : p ∈ d.schema.packets)
    (hlen : data.length < 2 ^ 63) (hdecode : decodeData host d p.id data = .ok packet) :
    (∀ name, SameField host d p data packet name) ↔
      (p.fields.map Field.name).Nodup ∧ p.fields.length ≤ 2 ^ 31 := by
  have hid := Schema.findPacketById_of_mem (buildSchema_valid h) hp
  have hplace := inPlace_of_decode hstop hid hlen hdecode
  exact ⟨nodup_of_sameField hplace, fun ⟨hnodup, hlong⟩ => sameField_of_nodup hplace hnodup hlong⟩

end

def pair (first second : String) : IRSchema where
  packets := [{ id := 1, name := "pair",
                fields := [{ name := first, type := "uint8" },
                  { name := second, type := "uint8" }] }]

def pairPacket (first second : String) : Packet where
  id := 1
  name := "pair"
  fields := [{ name := first, unit := some "" }, { name := second, unit := some "" }]

def pairDecoder (first second : String) : Decoder where
  schema := ({} : Schema).addPacket (pairPacket first second)

def pairByte (name : String) (byte : UInt8) : DecodedField where
  name := name
  type := .uint8
  rawValue := .uint64 byte.toUInt64
  scaledValue := .uint64 byte.toUInt64
  unit := ""
  bitfield := none

def pairDecoded (first second : String) : DecodedPacket :=
  (({ packetId := 1, packetName := "pair" } : DecodedPacket).addField (pairByte first 1)).addField
    (pairByte second 2)

theorem buildSchema_pair (first second : String) :
    buildSchema (pair first second) = .ok (pairDecoder first second).schema := rfl

theorem decodeData_pair (first second : String) :
    decodeData .x86 (pairDecoder first second) 1 [1, 2] = .ok (pairDecoded first second) := rfl

theorem decodeData_sameField_iff_pair :
    decodeData .x86 (pairDecoder "low" "high") 1 [1, 2] = .ok (pairDecoded "low" "high") ∧
    ∀ name, SameField .x86 (pairDecoder "low" "high") (pairPacket "low" "high") [1, 2]
      (pairDecoded "low" "high") name := by
  have hiff := decodeData_sameField_iff .x86 (buildSchema_pair "low" "high") rfl
    (List.mem_cons_self) (by decide) (decodeData_pair "low" "high")
  exact ⟨decodeData_pair "low" "high", hiff.mpr ⟨by decide, by decide⟩⟩

/-- Two fields of one name: the definition leads to the first, the packet to the second. -/
theorem pair_not_sameField :
    buildSchema (pair "level" "level") = .ok (pairDecoder "level" "level").schema ∧
    decodeData .x86 (pairDecoder "level" "level") 1 [1, 2] = .ok (pairDecoded "level" "level") ∧
    ¬∀ name, SameField .x86 (pairDecoder "level" "level") (pairPacket "level" "level") [1, 2]
      (pairDecoded "level" "level") name := by
  refine ⟨buildSchema_pair _ _, decodeData_pair _ _, fun h => ?_⟩
  obtain ⟨i, field, hint, -, hlook, -⟩ := (h "level").found _ rfl
  have hi : i = 1 := by
    have hlast : (pairDecoded "level" "level").fieldIndex.lookup "level" = some 1 := rfl
    exact Option.some.inj (hlook.symm.trans hlast)
  subst hi
  exact absurd hint (by decide)

end IONet.Accepted
