import IONet.Codec.Streaming

namespace IONet.Codec

open IONet.Core Lib.Slots Decoder

variable {host : Host} {d : Decoder} {order : ByteOrder} {f : Field} {r : ByteBufferReader}

theorem sized_iff_wireWidth_pos (f : Field) : Sized f ↔ 0 < wireWidth f := by
  unfold Sized wireWidth
  cases f.type with
  | bitfield =>
    unfold containerWidth
    split_ifs <;> simp
  | string => simp [Nat.pos_iff_ne_zero, ← UInt64.toNat_inj]
  | bytes => simp [Nat.pos_iff_ne_zero, ← UInt64.toNat_inj]
  | _ => simp

theorem total_fieldSlots (hr : r.Valid) (fs : List Field) :
    Total (fs.map (fieldSlot host d order)) r.data := by
  intro s hs q hfit
  obtain ⟨f, -, rfl⟩ := List.mem_map.mp hs
  rw [width_fieldSlot, ← sized_iff_wireWidth_pos]
  refine ⟨fun h => ?_, fun h => isSome_read_fieldSlot hr order h hfit⟩
  obtain ⟨field, hfield⟩ := Option.isSome_iff_exists.mp h
  exact ((read_at_iff hr).mp hfield).1

/-- Every field of the packet holds the bytes of its own definition. -/
def Attributed (host : Host) (d : Decoder) (p : Packet) (r : ByteBufferReader)
    (packet : DecodedPacket) : Prop :=
  ∀ j f, p.fields[j]? = some f → ∀ field ∈ packet.fields, field.name = f.name →
    r.pos + offset p.fields j + wireWidth f ≤ r.size ∧
      (typedRead host f d.schema.byteOrder ⟨r.data, r.pos + offset p.fields j⟩).1 =
        .ok field.rawValue

theorem found_of_sweep (hr : r.Valid) {fs : List Field} {p j : Nat} {field : DecodedField}
    (h : (sweep (fs.map (fieldSlot host d order)) r.data p).1[j]? = some (some field)) :
    ∃ f raw, fs[j]? = some f ∧ Sized f ∧ field = present host d f raw := by
  obtain ⟨s, q, hs, hread⟩ := read_of_getElem?_sweep h
  rw [List.getElem?_map, Option.map_eq_some_iff] at hs
  obtain ⟨f, hf, rfl⟩ := hs
  obtain ⟨hsized, -, raw, -, hfield⟩ := (read_at_iff hr).mp hread
  exact ⟨f, raw, hf, hsized, hfield⟩

theorem attributed_iff_sweep {p : Packet} (hnames : (p.fields.map Field.name).Nodup) (hr : r.Valid)
    {packet : DecodedPacket} (hpacket : packet.fields =
      (sweep (p.fields.map (fieldSlot host d d.schema.byteOrder)) r.data r.pos).1.reduceOption) :
    Attributed host d p r packet ↔ ∀ (j : Nat) (field : DecodedField),
      (sweep (p.fields.map (fieldSlot host d d.schema.byteOrder)) r.data r.pos).1[j]? =
        some (some field) →
      (readAll (p.fields.map (fieldSlot host d d.schema.byteOrder)) r.data r.pos)[j]? =
        some (some field) := by
  have hread : ∀ {j : Nat} {f : Field} (field : DecodedField), p.fields[j]? = some f →
      ((readAll (p.fields.map (fieldSlot host d d.schema.byteOrder)) r.data r.pos)[j]? =
        some (some field) ↔
      (fieldSlot host d d.schema.byteOrder f).read r.data (r.pos + offset p.fields j) =
        some field) := by
    intro j f field hf
    simp [getElem?_readAll, hf, offset, ← List.map_take, span_fieldSlots]
  constructor
  · intro h j field hj
    obtain ⟨f, raw, hf, hsized, rfl⟩ := found_of_sweep hr hj
    have hmem : present host d f raw ∈ packet.fields := by
      rw [hpacket, List.reduceOption_mem_iff]
      exact List.mem_of_getElem? hj
    obtain ⟨hfit, hraw⟩ := h j f hf _ hmem rfl
    exact (hread _ hf).mpr ((read_at_iff hr).mpr ⟨hsized, hfit, raw, hraw, rfl⟩)
  · intro h j f hf field hmem hname
    rw [hpacket, List.reduceOption_mem_iff] at hmem
    obtain ⟨k, hk⟩ := List.mem_iff_getElem?.mp hmem
    obtain ⟨g, raw, hg, -, rfl⟩ := found_of_sweep hr hk
    have hkj : k = j := by
      have hlt : k < (p.fields.map Field.name).length := by
        rw [List.length_map]
        exact (List.getElem?_eq_some_iff.mp hg).1
      apply (List.getElem?_inj hlt hnames).mp
      rw [List.getElem?_map, List.getElem?_map, hg, hf]
      exact congrArg some hname
    subst hkj
    have hslot := (hread _ hf).mp (h k _ hk)
    obtain ⟨-, hfit, raw', hraw', heq⟩ := (read_at_iff hr).mp hslot
    rw [heq]
    exact ⟨hfit, hraw'⟩

/-- Lenient decoding always returns a packet.  Its fields are the ones their
names say unless, after the first field that runs past the end of the buffer, a
later one is narrow enough for the bytes left there. -/
theorem decode_lenient_attributed_iff (host : Host) (hstop : d.options.stopOnError = false)
    {id : UInt32} {p : Packet} (hid : d.schema.findPacketById id = some p)
    (hnames : (p.fields.map Field.name).Nodup) (hr : r.Valid) :
    ∃ packet r', decode host d id r = (.ok packet, r') ∧
      (∀ field ∈ packet.fields, ∃ f ∈ p.fields, field.name = f.name ∧ field.type = f.type) ∧
      (Attributed host d p r packet ↔ NoStraggler (p.fields.map wireWidth) r.size r.pos) := by
  rw [decode_of_find hid, decodeFields_lenient hstop p.fields hr]
  refine ⟨_, _, rfl, fun field hfield => ?_, ?_⟩
  · rw [DecodedPacket.fields_foldl_addField, List.nil_append, List.reduceOption_mem_iff] at hfield
    obtain ⟨j, hj⟩ := List.mem_iff_getElem?.mp hfield
    obtain ⟨f, raw, hf, -, rfl⟩ := found_of_sweep hr hj
    exact ⟨f, List.mem_of_getElem? hf, rfl, rfl⟩
  · have hwidths : p.fields.map wireWidth =
        (p.fields.map (fieldSlot host d d.schema.byteOrder)).map Slot.width := by
      simp [Function.comp_def]
    rw [hwidths]
    refine Iff.trans (attributed_iff_sweep hnames hr ?_)
      (sweep_attributes_iff (total_fieldSlots hr p.fields) hr.pos_le)
    rw [DecodedPacket.fields_foldl_addField, List.nil_append]

def reading : Packet where
  id := 1
  name := "reading"
  fields := [{ name := "word", type := .uint32 }, { name := "byte" }]

def readingDecoder : Decoder where
  schema := ({} : Schema).addPacket reading
  options := { stopOnError := false }

theorem decode_lenient_attributed_iff_reading :
    ∃ packet r', decode .x86 readingDecoder 1 ⟨[0, 0, 0, 5], 0⟩ = (.ok packet, r') ∧
      Attributed .x86 readingDecoder reading ⟨[0, 0, 0, 5], 0⟩ packet := by
  have hr : (ByteBufferReader.mk [0, 0, 0, 5] 0).Valid := .mk_zero (by decide)
  have hfind : readingDecoder.schema.findPacketById 1 = some reading := rfl
  obtain ⟨packet, r', h, -, hiff⟩ :=
    decode_lenient_attributed_iff .x86 rfl hfind (by decide) hr
  refine ⟨packet, r', h, hiff.mpr ?_⟩
  -- The byte is cut off, and nothing comes behind it.
  have hwidths : reading.fields.map wireWidth = [4, 1] := rfl
  rw [hwidths, noStraggler_cons_of_le (by decide), noStraggler_cons_of_lt (by decide) (by decide)]
  exact nofun

/-- One byte is left: the word does not fit, and the byte is read in its place. -/
theorem decode_lenient_misattributes :
    ∃ packet, decode .x86 readingDecoder 1 ⟨[5], 0⟩ = (.ok packet, ⟨[5], 1⟩) ∧
      ¬Attributed .x86 readingDecoder reading ⟨[5], 0⟩ packet := by
  refine ⟨({ packetId := 1, packetName := "reading" } : DecodedPacket).addField
    { name := "byte", type := .uint8, rawValue := .uint64 5, scaledValue := .uint64 5, unit := "",
      bitfield := none }, rfl, fun h => ?_⟩
  have hfit := (h 1 { name := "byte" } rfl _ List.mem_cons_self rfl).1
  exact absurd hfit (by decide)

end IONet.Codec
