import IONet.Codec.Scaling
import IONet.Schema.SchemaParser

namespace IONet.Accepted

open IONet.Core Codec Codec.Decoder SchemaParserBase Lib.Throwing

def width (f : Field) : UInt8 := f.bitCount.getD 8

/-- Whoever carries flags is a bitfield and declares every bit they name. -/
structure MeaningfulFlags (f : Field) : Prop where
  bitfield : f.type = .bitfield
  pos : 1 ≤ width f
  le : width f ≤ 64
  declared : ∀ flag ∈ f.bitFlags, flag.bit < width f

variable {native : Endian} (wide wide' : UInt64 → UInt8 → UInt64)

theorem shiftRight_of_lt {bit : UInt8} (h : bit < 64) (word : UInt64) :
    Host.shiftRight ⟨native, wide⟩ word bit = word >>> bit.toUInt64 := if_pos h

theorem decodeBitfield_of_lt {f : Field} (h : ∀ flag ∈ f.bitFlags, flag.bit < 64)
    (rawValue : UInt64) :
    decodeBitfield ⟨native, wide⟩ rawValue f = decodeBitfield ⟨native, wide'⟩ rawValue f := by
  unfold decodeBitfield
  congr 1
  apply List.foldl_ext
  intro flags flag hflag
  rw [shiftRight_of_lt wide (h flag hflag), shiftRight_of_lt wide' (h flag hflag)]

theorem decodeField_of_lt {f : Field} (h : f.type = .bitfield → ∀ flag ∈ f.bitFlags, flag.bit < 64)
    (d : Decoder) (order : ByteOrder) :
    decodeField ⟨native, wide⟩ d f order = decodeField ⟨native, wide'⟩ d f order := by
  unfold decodeField decodeRaw
  cases htype : f.type with
  | bitfield =>
    simp only [decodeBitfield_of_lt wide wide' (h htype)]
    rfl
  | _ => rfl

theorem decodeFields_of_lt {d : Decoder} {order : ByteOrder} {fs : List Field}
    (h : ∀ f ∈ fs, f.type = .bitfield → ∀ flag ∈ f.bitFlags, flag.bit < 64)
    (result : DecodedPacket) (r : ByteBufferReader) :
    decodeFields ⟨native, wide⟩ d order fs result r =
      decodeFields ⟨native, wide'⟩ d order fs result r := by
  induction fs generalizing result r with
  | nil => rfl
  | cons f fs ih =>
    have ih := ih fun g hg => h g (List.mem_cons_of_mem f hg)
    simp only [decodeFields, decodeField_of_lt wide wide' (h f List.mem_cons_self), ih]

theorem decode_of_lt {d : Decoder}
    (h : ∀ p ∈ d.schema.packets, ∀ f ∈ p.fields, f.type = .bitfield →
      ∀ flag ∈ f.bitFlags, flag.bit < 64)
    (id : UInt32) (r : ByteBufferReader) :
    decode ⟨native, wide⟩ d id r = decode ⟨native, wide'⟩ d id r := by
  unfold decode
  cases hid : d.schema.findPacketById id with
  | none => rfl
  | some p => exact decodeFields_of_lt wide wide' (h p (Schema.mem_of_findPacketById hid)) _ r

structure FlagsMeaningful (s : Schema) : Prop where
  flags : ∀ p ∈ s.packets, ∀ f ∈ p.fields, f.bitFlags ≠ [] → MeaningfulFlags f
  produced : ∀ p ∈ s.packets, ∀ f ∈ p.fields, f.isBitfield → ∀ host d order r field,
    (decodeField host d f order r).1 = .ok field → field.bitfield.isSome
  shifts : ∀ d : Decoder, d.schema = s → ∀ native wide wide' id r,
    decode ⟨native, wide⟩ d id r = decode ⟨native, wide'⟩ d id r

theorem bitfield_of_decodeField {host : Host} {d : Decoder} {f : Field} (htype : f.type = .bitfield)
    {order : ByteOrder} {r : ByteBufferReader} {field : DecodedField}
    (h : (decodeField host d f order r).1 = .ok field) : field.bitfield.isSome := by
  obtain ⟨raw, hraw, rfl⟩ := ReadM.ok_of_map h
  rw [decodeRaw, htype] at hraw
  obtain ⟨a, -, rfl⟩ := ReadM.ok_of_map (ok_of_caught hraw)
  rfl

theorem flagsMeaningful_of_flags {s : Schema}
    (h : ∀ p ∈ s.packets, ∀ f ∈ p.fields, f.bitFlags ≠ [] → MeaningfulFlags f) :
    FlagsMeaningful s where
  flags := h
  produced p hp f hf hbitfield host d order r field hfield := by
    apply bitfield_of_decodeField _ hfield
    by_cases hflags : f.bitFlags = []
    · simpa [Field.isBitfield, hflags] using hbitfield
    · exact (h p hp f hf hflags).bitfield
  shifts d hd native wide wide' id r := by
    subst hd
    apply decode_of_lt wide wide'
    intro p hp f hf _ flag hflag
    have hmeaningful := h p hp f hf (List.ne_nil_of_mem hflag)
    exact UInt8.lt_of_lt_of_le (hmeaningful.declared flag hflag) hmeaningful.le

structure DeclaresFlags (ir : IRField) : Prop where
  bitfield : ir.type = "bitfield"
  pos : 1 ≤ ir.bitCount.getD 8
  le : ir.bitCount.getD 8 ≤ 64
  declared : ∀ flag ∈ ir.bitFlags, flag.bit < ir.bitCount.getD 8

theorem meaningfulFlags_iff {ir : IRField} {f : Field} (h : buildField ir = .ok f) :
    (f.bitFlags ≠ [] → MeaningfulFlags f) ↔ (ir.bitFlags ≠ [] → DeclaresFlags ir) := by
  obtain ⟨type, hbytes, htype, rfl⟩ := buildField_eq_ok_iff.mp h
  have hbitfield : type = .bitfield ↔ ir.type = "bitfield" := (type_eq_iff htype .bitfield).symm
  have hflags : (fieldOf ir type).bitFlags ≠ [] ↔ ir.bitFlags ≠ [] := by simp [fieldOf]
  have hdeclared : (∀ flag ∈ (fieldOf ir type).bitFlags, flag.bit < ir.bitCount.getD 8) ↔
      ∀ flag ∈ ir.bitFlags, flag.bit < ir.bitCount.getD 8 := by
    simp [fieldOf, buildBitFlag]
  constructor
  · intro hf hne
    obtain ⟨hbit, hpos, hle, hdecl⟩ := hf (hflags.mpr hne)
    exact ⟨hbitfield.mp hbit, hpos, hle, hdeclared.mp hdecl⟩
  · intro hir hne
    obtain ⟨hbit, hpos, hle, hdecl⟩ := hir (hflags.mp hne)
    exact ⟨hbitfield.mpr hbit, hpos, hle, hdeclared.mpr hdecl⟩

/-- Nothing on the way from the configuration to the decoder checks a flag: its
flags are meaningful exactly when they were written so. -/
theorem buildSchema_flags_iff {ir : IRSchema} {s : Schema} (h : buildSchema ir = .ok s) :
    FlagsMeaningful s ↔ ∀ irPacket ∈ ir.packets, ∀ irField ∈ irPacket.fields,
      irField.bitFlags ≠ [] → DeclaresFlags irField := by
  have hflags := forall_fields_iff h fun f => f.bitFlags ≠ [] → MeaningfulFlags f
  have hsame : FlagsMeaningful s ↔
      ∀ p ∈ s.packets, ∀ f ∈ p.fields, f.bitFlags ≠ [] → MeaningfulFlags f :=
    ⟨FlagsMeaningful.flags, flagsMeaningful_of_flags⟩
  rw [hsame, hflags]
  refine forall₂_congr fun irPacket hirPacket => forall₂_congr fun irField hirField => ?_
  obtain ⟨f, hf⟩ := exists_buildField h hirPacket hirField
  rw [← meaningfulFlags_iff hf]
  constructor
  · intro hall
    exact hall f hf
  · intro hone f' hf'
    cases hf.symm.trans hf'
    exact hone

def status (bit : UInt8) : IRSchema where
  packets := [{ id := 1, name := "status", fields :=
    [{ name := "bits", type := "bitfield", bitFlags := [{ bit := bit, name := "ready" }] }] }]

def statusField (bit : UInt8) : Field where
  name := "bits"
  type := .bitfield
  unit := some ""
  bitFlags := [{ bit := bit, name := "ready", description := "" }]

def statusSchema (bit : UInt8) : Schema :=
  ({} : Schema).addPacket { id := 1, name := "status", fields := [statusField bit] }

theorem buildSchema_status (bit : UInt8) : buildSchema (status bit) = .ok (statusSchema bit) := rfl

theorem buildSchema_flags_iff_status : FlagsMeaningful (statusSchema 7) := by
  apply (buildSchema_flags_iff (buildSchema_status 7)).mpr
  simp only [status, List.forall_mem_singleton]
  exact fun _ => ⟨rfl, by decide, by decide, by simp⟩

/-- A flag at bit 64 is accepted, and decoded by a shift by 64. -/
theorem status_shift_undefined :
    buildSchema (status 64) = .ok (statusSchema 64) ∧ ¬FlagsMeaningful (statusSchema 64) := by
  refine ⟨rfl, fun h => ?_⟩
  have hflags := h.flags _ List.mem_cons_self (statusField 64) List.mem_cons_self nofun
  exact absurd (hflags.declared _ List.mem_cons_self) (by decide)

end IONet.Accepted
