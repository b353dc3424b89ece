import IONet.Codec.WireLayout

namespace IONet.Codec

open IONet.Core Lib.Slots Decoder

variable {host : Host} {d : Decoder}

theorem span_fieldSlots (order : ByteOrder) (fs : List Field) :
    span (fs.map (fieldSlot host d order)) = (fs.map wireWidth).sum := by
  simp [span, Function.comp_def]

theorem span_checkedSlots (order : ByteOrder) (fs : List Field) :
    span (fs.map (checkedSlot host d order)) = (fs.map wireWidth).sum := by
  simp [span, Function.comp_def]

def offset (fs : List Field) (i : Nat) : Nat := ((fs.take i).map wireWidth).sum

theorem decode_of_find {id : UInt32} {p : Packet} (hid : d.schema.findPacketById id = some p)
    (r : ByteBufferReader) :
    decode host d id r = decodeFields host d d.schema.byteOrder p.fields
      { packetId := id, packetName := p.name } r := by
  simp [decode, hid]

theorem decode_strict_iff (host : Host) (hstop : d.options.stopOnError = true) {id : UInt32}
    {p : Packet} (hid : d.schema.findPacketById id = some p) {r : ByteBufferReader} (hr : r.Valid)
    (packet : DecodedPacket) (r' : ByteBufferReader) :
    decode host d id r = (.ok packet, r') ↔ ∃ fields : List DecodedField,
      fields.length = p.fields.length ∧
      (∀ i f, p.fields[i]? = some f → ∃ field, fields[i]? = some field ∧
        (checkedSlot host d d.schema.byteOrder f).read r.data (r.pos + offset p.fields i) =
          some field) ∧
      r.pos + (p.fields.map wireWidth).sum ≤ r.size ∧
      packet = fields.foldl DecodedPacket.addField { packetId := id, packetName := p.name } ∧
      r' = { r with pos := r.pos + (p.fields.map wireWidth).sum } := by
  rw [decode_of_find hid, decodeFields_strict_iff hstop p.fields hr]
  have hscan (fields : List DecodedField) (q : Nat) :
      scan (p.fields.map (checkedSlot host d d.schema.byteOrder)) r.data r.pos = some (fields, q) ↔
      (fields.length = p.fields.length ∧
        ∀ i f, p.fields[i]? = some f → ∃ field, fields[i]? = some field ∧
          (checkedSlot host d d.schema.byteOrder f).read r.data (r.pos + offset p.fields i) =
            some field) ∧ q = r.pos + (p.fields.map wireWidth).sum := by
    simp only [scan_eq_some_iff, readAll_eq_map_some_iff, span_checkedSlots, List.length_map,
      List.getElem?_map, Option.map_eq_some_iff, ← List.map_take, forall_exists_index, and_imp,
      forall_apply_eq_imp_iff₂, offset]
  constructor
  · rintro ⟨fields, q, h, rfl, rfl⟩
    have hle := scan_le hr.pos_le h
    obtain ⟨⟨hlen, hread⟩, rfl⟩ := (hscan fields q).mp h
    exact ⟨fields, hlen, hread, hle, rfl, rfl⟩
  · rintro ⟨fields, hlen, hread, -, rfl, rfl⟩
    exact ⟨fields, _, (hscan fields _).mpr ⟨⟨hlen, hread⟩, rfl⟩, rfl, rfl⟩

theorem read_at_iff {r : ByteBufferReader} (hr : r.Valid) {order : ByteOrder} {f : Field} {q : Nat}
    {field : DecodedField} :
    (fieldSlot host d order f).read r.data q = some field ↔
      Sized f ∧ q + wireWidth f ≤ r.size ∧ ∃ raw,
        (typedRead host f order ⟨r.data, q⟩).1 = .ok raw ∧ field = present host d f raw := by
  constructor
  · intro h
    have hq : q ≤ r.size := (Nat.le_add_right _ _).trans (read_le h)
    obtain ⟨hs, hfit, raw, hraw, hfield⟩ := (read_fieldSlot_iff (hr.at hq)).mp h
    exact ⟨hs, hfit, raw, congrArg Prod.fst hraw, hfield⟩
  · rintro ⟨hs, hfit, raw, hraw, hfield⟩
    have hq := hr.at ((Nat.le_add_right _ _).trans hfit)
    obtain ⟨a, -, ha⟩ := (typedRead_reads host f order).fits _ hq hfit
    have har : a = raw := by
      rw [ha] at hraw
      exact Except.ok.inj hraw
    exact (read_fieldSlot_iff hq).mpr ⟨hs, hfit, raw, har ▸ ha, hfield⟩

theorem isSome_read_fieldSlot {r : ByteBufferReader} (hr : r.Valid) (order : ByteOrder) {f : Field}
    (hs : Sized f) {q : Nat} (hfit : q + wireWidth f ≤ r.size) :
    ((fieldSlot host d order f).read r.data q).isSome := by
  have hq := hr.at ((Nat.le_add_right _ _).trans hfit)
  obtain ⟨raw, -, hraw⟩ := (typedRead_reads host f order).fits _ hq hfit
  exact Option.isSome_iff_exists.mpr
    ⟨_, (read_fieldSlot_iff hq).mpr ⟨hs, hfit, raw, hraw, rfl⟩⟩

theorem decode_of_sized (hvalidate : d.options.validateConstraints = false) {id : UInt32}
    {p : Packet} (hid : d.schema.findPacketById id = some p) {r : ByteBufferReader} (hr : r.Valid)
    (hs : ∀ f ∈ p.fields, Sized f) (hfit : r.pos + (p.fields.map wireWidth).sum ≤ r.size) :
    ∃ packet r', decode host d id r = (.ok packet, r') := by
  have hread : ∀ s ∈ p.fields.map (checkedSlot host d d.schema.byteOrder),
      ∀ q, q + s.width ≤ r.data.length → (s.read r.data q).isSome := by
    rw [List.forall_mem_map]
    intro f hf q hq
    rw [checkedSlot_of_not_validate hvalidate]
    exact isSome_read_fieldSlot hr d.schema.byteOrder (hs f hf) hq
  have hscan := scan_isSome (p := r.pos) hread (by rwa [span_checkedSlots])
  obtain ⟨⟨fields, q⟩, hscan⟩ := Option.isSome_iff_exists.mp hscan
  rw [decode_of_find hid]
  exact ⟨_, _, decodeFields_of_scan p.fields hr _ hscan⟩

theorem decode_ok_iff (host : Host) (hstop : d.options.stopOnError = true)
    (hvalidate : d.options.validateConstraints = false) {id : UInt32} {p : Packet}
    (hid : d.schema.findPacketById id = some p) {r : ByteBufferReader} (hr : r.Valid) :
    (∃ packet r', decode host d id r = (.ok packet, r')) ↔
      (∀ f ∈ p.fields, Sized f) ∧ r.pos + (p.fields.map wireWidth).sum ≤ r.size := by
  constructor
  · rintro ⟨packet, r', h⟩
    obtain ⟨fields, -, hread, hfit, -⟩ := (decode_strict_iff host hstop hid hr packet r').mp h
    refine ⟨fun f hf => ?_, hfit⟩
    obtain ⟨i, hi⟩ := List.mem_iff_getElem?.mp hf
    obtain ⟨field, -, hfield⟩ := hread i f hi
    rw [checkedSlot_of_not_validate hvalidate] at hfield
    exact ((read_at_iff hr).mp hfield).1
  · rintro ⟨hs, hfit⟩
    exact decode_of_sized hvalidate hid hr hs hfit

theorem decode_reader (hstop : d.options.stopOnError = true) {id : UInt32} {p : Packet}
    (hid : d.schema.findPacketById id = some p) {r : ByteBufferReader} (hr : r.Valid)
    {packet : DecodedPacket} {r' : ByteBufferReader} (h : decode host d id r = (.ok packet, r')) :
    r' = { r with pos := r.pos + (p.fields.map wireWidth).sum } := by
  obtain ⟨fields, -, -, -, -, hr'⟩ := (decode_strict_iff host hstop hid hr packet r').mp h
  exact hr'

theorem decode_fields (hstop : d.options.stopOnError = true) {id : UInt32} {p : Packet}
    (hid : d.schema.findPacketById id = some p) {r : ByteBufferReader} (hr : r.Valid)
    {packet : DecodedPacket} {r' : ByteBufferReader} (h : decode host d id r = (.ok packet, r')) :
    packet.fields.length = p.fields.length ∧
      ∀ i f, p.fields[i]? = some f → ∃ raw, packet.fields[i]? = some (present host d f raw) ∧
        (typedRead host f d.schema.byteOrder ⟨r.data, r.pos + offset p.fields i⟩).1 = .ok raw ∧
        passes d f (present host d f raw) = true := by
  obtain ⟨fields, hlen, hread, -, rfl, -⟩ := (decode_strict_iff host hstop hid hr packet r').mp h
  simp only [DecodedPacket.fields_foldl_addField, List.nil_append]
  refine ⟨hlen, fun i f hi => ?_⟩
  obtain ⟨field, hfield, hslot⟩ := hread i f hi
  rw [read_checkedSlot, Option.filter_eq_some_iff] at hslot
  obtain ⟨-, -, raw, hraw, rfl⟩ := (read_at_iff hr).mp hslot.1
  exact ⟨raw, hfield, hraw, hslot.2⟩

/-- Decoding with a cursor is decoding at the offsets that the widths add up to. -/
theorem decode_iff_offsets (host : Host) (hstop : d.options.stopOnError = true)
    (hvalidate : d.options.validateConstraints = false) {id : UInt32} {p : Packet}
    (hid : d.schema.findPacketById id = some p) {r : ByteBufferReader} (hr : r.Valid) :
    ((∃ packet r', decode host d id r = (.ok packet, r')) ↔
      (∀ f ∈ p.fields, Sized f) ∧ r.pos + (p.fields.map wireWidth).sum ≤ r.size) ∧
    ∀ packet r', decode host d id r = (.ok packet, r') →
      packet.fields.length = p.fields.length ∧
      (∀ i f, p.fields[i]? = some f → ∃ field, packet.fields[i]? = some field ∧
        field.name = f.name ∧ field.type = f.type ∧
        (typedRead host f d.schema.byteOrder ⟨r.data, r.pos + offset p.fields i⟩).1 =
          .ok field.rawValue) ∧
      r' = { r with pos := r.pos + (p.fields.map wireWidth).sum } := by
  refine ⟨decode_ok_iff host hstop hvalidate hid hr, fun packet r' h => ?_⟩
  obtain ⟨hlen, hfields⟩ := decode_fields hstop hid hr h
  refine ⟨hlen, fun i f hi => ?_, decode_reader hstop hid hr h⟩
  obtain ⟨raw, hfield, hraw, -⟩ := hfields i f hi
  exact ⟨present host d f raw, hfield, rfl, rfl, hraw⟩

def probe : Decoder where
  schema := ({} : Schema).addPacket { id := 1, name := "probe", fields := [{ name := "level" }] }
  options := { validateConstraints := false }

theorem find_probe : probe.schema.findPacketById 1 =
    some { id := 1, name := "probe", fields := [{ name := "level" }] } := rfl

def surveyPacket : Packet where
  id := 1
  name := "survey"
  fields := [{ name := "level" }, { name := "depth", type := .int16 },
    { name := "state", type := .bitfield, bitCount := some 12,
      bitFlags := [{ bit := 3, name := "open", description := "" }] },
    { name := "site", type := .string, stringSize := some 2 }]

def survey : Decoder where
  schema := ({} : Schema).addPacket surveyPacket
  options := { validateConstraints := false }

theorem find_survey : survey.schema.findPacketById 1 = some surveyPacket := rfl

def surveyed : DecodedPacket :=
  .filled 1 "survey" (List.zipWith (present .x86 survey) surveyPacket.fields
    [.uint64 7, .int64 0x0201, .uint64 8, .string [72, 105]])

theorem decode_iff_offsets_survey : ∃ packet depth,
    decode .x86 survey 1 ⟨[7, 1, 2, 8, 0, 72, 105, 9], 0⟩ =
        (.ok packet, ⟨[7, 1, 2, 8, 0, 72, 105, 9], 7⟩) ∧
      packet.fields[1]? = some depth ∧ depth.rawValue = .int64 0x0201 := by
  have hr : (ByteBufferReader.mk [7, 1, 2, 8, 0, 72, 105, 9] 0).Valid := .mk_zero (by decide)
  have hoffsets := decode_iff_offsets .x86 (d := survey) rfl rfl find_survey hr
  obtain ⟨packet, r', h⟩ := hoffsets.1.mpr (by decide)
  obtain ⟨-, hfields, rfl⟩ := hoffsets.2 packet r' h
  obtain ⟨depth, hdepth, -, -, hvalue⟩ := hfields 1 _ rfl
  exact ⟨packet, depth, h, hdepth, (Except.ok.inj hvalue).symm⟩

def decodeEach (host : Host) (d : Decoder) :
    List UInt32 → ByteBufferReader → Result (List DecodedPacket) × ByteBufferReader
  | [], reader => (.ok [], reader)
  | id :: ids, reader =>
    match decode host d id reader with
    | (.error e, reader') => (.error e, reader')
    | (.ok packet, reader') =>
      match decodeEach host d ids reader' with
      | (.error e, reader'') => (.error e, reader'')
      | (.ok packets, reader'') => (.ok (packet :: packets), reader'')

theorem decode_append (hstop : d.options.stopOnError = true) {id : UInt32} {b : List UInt8}
    {packet : DecodedPacket} (h : decode host d id ⟨b, 0⟩ = (.ok packet, ⟨b, b.length⟩))
    (pre post : List UInt8) (hlen : (pre ++ b ++ post).length < 2 ^ 63) :
    decode host d id ⟨pre ++ b ++ post, pre.length⟩ =
      (.ok packet, ⟨pre ++ b ++ post, pre.length + b.length⟩) := by
  simp only [List.length_append] at hlen
  cases hid : d.schema.findPacketById id with
  | none => simp [decode, hid] at h
  | some p =>
    have hb : (ByteBufferReader.mk b 0).Valid := .mk_zero (by omega)
    rw [decode_of_find hid, decodeFields_strict_iff hstop p.fields hb] at h
    obtain ⟨fields, q, hscan, rfl, hq⟩ := h
    cases hq
    have hfit : 0 + span (p.fields.map (checkedSlot host d d.schema.byteOrder)) ≤ b.length :=
      (scan_eq_some_iff.mp hscan).2.ge
    have hbig : (ByteBufferReader.mk (pre ++ b ++ post) pre.length).Valid := by
      constructor <;> simp only [ByteBufferReader.size, List.length_append] <;> omega
    rw [decode_of_find hid, decodeFields_strict_iff hstop p.fields hbig]
    have happend := scan_append hfit pre post
    exact ⟨fields, pre.length + b.length, by simpa [hscan] using happend, rfl, rfl⟩

theorem decodeEach_from (hstop : d.options.stopOnError = true)
    {items : List (UInt32 × List UInt8)} {packets : List DecodedPacket}
    (h : List.Forall₂ (fun item packet =>
      decode host d item.1 ⟨item.2, 0⟩ = (.ok packet, ⟨item.2, item.2.length⟩)) items packets)
    (pre tail : List UInt8) (hlen : (pre ++ items.flatMap Prod.snd ++ tail).length < 2 ^ 63) :
    decodeEach host d (items.map Prod.fst) ⟨pre ++ items.flatMap Prod.snd ++ tail, pre.length⟩ =
      (.ok packets, ⟨pre ++ items.flatMap Prod.snd ++ tail,
        pre.length + (items.flatMap Prod.snd).length⟩) := by
  induction h generalizing pre with
  | nil => simp [decodeEach]
  | @cons item packet items packets hitem _ ih =>
    have hdata : pre ++ (item :: items).flatMap Prod.snd ++ tail =
        pre ++ item.2 ++ (items.flatMap Prod.snd ++ tail) := by
      simp
    rw [hdata] at hlen ⊢
    have hfirst := decode_append hstop hitem pre (items.flatMap Prod.snd ++ tail) hlen
    have hrest := ih (pre ++ item.2) (by simpa using hlen)
    simp only [List.length_append, ← List.append_assoc] at hfirst hrest ⊢
    simp only [List.map_cons, decodeEach, hfirst, hrest]
    simp [Nat.add_assoc]

theorem decodeEach_concat (hstop : d.options.stopOnError = true)
    {items : List (UInt32 × List UInt8)} {packets : List DecodedPacket}
    (h : List.Forall₂ (fun item packet =>
      decode host d item.1 ⟨item.2, 0⟩ = (.ok packet, ⟨item.2, item.2.length⟩)) items packets)
    (tail : List UInt8) (hlen : (items.flatMap Prod.snd ++ tail).length < 2 ^ 63) :
    decodeEach host d (items.map Prod.fst) ⟨items.flatMap Prod.snd ++ tail, 0⟩ =
      (.ok packets, ⟨items.flatMap Prod.snd ++ tail, (items.flatMap Prod.snd).length⟩) := by
  simpa using decodeEach_from hstop h [] tail (by simpa using hlen)

def probePacket (level : UInt8) : DecodedPacket :=
  ({ packetId := 1, packetName := "probe" } : DecodedPacket).addField
    { name := "level", type := .uint8, rawValue := .uint64 level.toUInt64,
      scaledValue := .uint64 level.toUInt64, unit := "", bitfield := none }

theorem decodeEach_concat_probe : decodeEach .x86 probe [1, 1] ⟨[7, 8, 9], 0⟩ =
    (.ok [probePacket 7, probePacket 8], ⟨[7, 8, 9], 2⟩) := by
  have h : List.Forall₂ (fun (item : UInt32 × List UInt8) packet =>
      decode .x86 probe item.1 ⟨item.2, 0⟩ = (.ok packet, ⟨item.2, item.2.length⟩))
      [(1, [7]), (1, [8])] [probePacket 7, probePacket 8] :=
    .cons rfl (.cons rfl .nil)
  exact decodeEach_concat rfl h [9] (by decide)

end IONet.Codec
