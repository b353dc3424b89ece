import IONet.Codec.Streaming
import IONet.Schema.SchemaParser

namespace IONet.Accepted

open IONet.Core Codec Codec.Decoder SchemaParserBase Lib.Throwing

variable {ir : IRSchema} {s : Schema}

theorem sized_fieldOf_iff {irField : IRField} {type : DataType} (hbytes : type ≠ .bytes) :
    Sized (fieldOf irField type) ↔ (type = .string → irField.size.getD 0 ≠ 0) := by
  cases type with
  | bytes => exact absurd rfl hbytes
  | string => simp [Sized, fieldOf]
  | _ => simp [Sized, fieldOf]

/-- A buffer of some length on which the packet is decoded, whatever the scaling. -/
def Decodable (host : Host) (s : Schema) (p : Packet) : Prop :=
  ∃ buffer : List UInt8, buffer.length < 2 ^ 63 ∧ ∀ d : Decoder, d.schema = s →
    d.options.stopOnError = true → d.options.validateConstraints = false →
      ∃ packet, decodeData host d p.id buffer = .ok packet

theorem exists_decodeData_iff {host : Host} {d : Decoder} {id : UInt32} {buffer : List UInt8} :
    (∃ packet, decodeData host d id buffer = .ok packet) ↔
      ∃ packet r', decode host d id ⟨buffer, 0⟩ = (.ok packet, r') := by
  simp [decodeData, Prod.ext_iff]

theorem decodable_iff (host : Host) (hs : s.Valid) {p : Packet} (hp : p ∈ s.packets) :
    Decodable host s p ↔ (∀ f ∈ p.fields, Sized f) ∧ (p.fields.map wireWidth).sum < 2 ^ 63 := by
  have hfind := Schema.findPacketById_of_mem hs hp
  have hok {d : Decoder} (hd : d.schema = s) (hstop : d.options.stopOnError = true)
      (hvalidate : d.options.validateConstraints = false) {buffer : List UInt8}
      (hlen : buffer.length < 2 ^ 63) : (∃ packet, decodeData host d p.id buffer = .ok packet) ↔
        (∀ f ∈ p.fields, Sized f) ∧ (p.fields.map wireWidth).sum ≤ buffer.length := by
    subst hd
    rw [exists_decodeData_iff, decode_ok_iff host hstop hvalidate hfind (.mk_zero hlen),
      Nat.zero_add]
    rfl
  constructor
  · rintro ⟨buffer, hlen, h⟩
    have hd := h { schema := s, options := { validateConstraints := false } } rfl rfl rfl
    obtain ⟨hsized, hsum⟩ := (hok rfl rfl rfl hlen).mp hd
    exact ⟨hsized, hsum.trans_lt hlen⟩
  · rintro ⟨hsized, hsum⟩
    refine ⟨List.replicate (p.fields.map wireWidth).sum 0, by simpa using hsum, ?_⟩
    intro d hd hstop hvalidate
    exact (hok hd hstop hvalidate (by simpa using hsum)).mpr ⟨hsized, by simp⟩

def configuredWidth (ir : IRField) : Nat :=
  match parseDataType ir.type with
  | .ok type => wireWidth (fieldOf ir type)
  | .error _ => 0

theorem configuredWidth_eq {ir : IRField} {f : Field} (h : buildField ir = .ok f) :
    configuredWidth ir = wireWidth f := by
  obtain ⟨type, hbytes, htype, rfl⟩ := buildField_eq_ok_iff.mp h
  rw [configuredWidth, parseDataType_eq_ok_iff.mpr ⟨hbytes, htype⟩]

theorem sized_iff {ir : IRField} {f : Field} (h : buildField ir = .ok f) :
    Sized f ↔ (ir.type = "string" → ir.size.getD 0 ≠ 0) := by
  obtain ⟨type, hbytes, htype, rfl⟩ := buildField_eq_ok_iff.mp h
  have hstring : type = .string ↔ ir.type = "string" := (type_eq_iff htype .string).symm
  rw [sized_fieldOf_iff hbytes, hstring]

/-- A packet of the configuration whose strings say how long they are, and whose
fields can be in one buffer. -/
structure Fits (ir : IRPacket) : Prop where
  strings : ∀ irField ∈ ir.fields, irField.type = "string" → irField.size.getD 0 ≠ 0
  total : (ir.fields.map configuredWidth).sum < 2 ^ 63

theorem fits_iff {irPacket : IRPacket} {p : Packet} (h : buildPacket irPacket = .ok p) :
    Fits irPacket ↔ (∀ f ∈ p.fields, Sized f) ∧ (p.fields.map wireWidth).sum < 2 ^ 63 := by
  obtain ⟨fs, hfs, rfl⟩ := buildPacket_eq_ok_iff.mp h
  have hwidths : fs.map wireWidth = irPacket.fields.map configuredWidth :=
    map_results_eq hfs fun _ _ hbuild => (configuredWidth_eq hbuild).symm
  have hsized : (∀ f ∈ fs, Sized f) ↔
      ∀ irField ∈ irPacket.fields, irField.type = "string" → irField.size.getD 0 ≠ 0 := by
    constructor
    · intro hall irField hirField
      obtain ⟨f, hf, hbuild⟩ := exists_of_mem hfs hirField
      exact (sized_iff hbuild).mp (hall f hf)
    · intro hall f hf
      obtain ⟨irField, hirField, hbuild⟩ := exists_of_mem_results hfs hf
      exact (sized_iff hbuild).mpr (hall irField hirField)
  constructor
  · rintro ⟨hstrings, htotal⟩
    exact ⟨hsized.mpr hstrings, hwidths.symm ▸ htotal⟩
  · rintro ⟨hall, htotal⟩
    exact ⟨hsized.mp hall, hwidths ▸ htotal⟩

/-- Loading accepts more than the decoder can use: the packets that can never be
decoded are those with a string of no size, or of more bytes than a buffer has. -/
theorem buildSchema_decodable_iff (host : Host) (h : buildSchema ir = .ok s) :
    (∀ p ∈ s.packets, Decodable host s p) ↔ ∀ irPacket ∈ ir.packets, Fits irPacket := by
  have hpackets := buildSchema_packets h
  have hvalid := buildSchema_valid h
  constructor
  · intro hall irPacket hirPacket
    obtain ⟨p, hp, hbuild⟩ := exists_of_mem hpackets hirPacket
    exact (fits_iff hbuild).mpr ((decodable_iff host hvalid hp).mp (hall p hp))
  · intro hall p hp
    obtain ⟨irPacket, hirPacket, hbuild⟩ := exists_of_mem_results hpackets hp
    exact (decodable_iff host hvalid hp).mpr ((fits_iff hbuild).mp (hall irPacket hirPacket))

def label (size : Option UInt64) : IRSchema where
  packets := [{ id := 1, name := "label",
                fields := [{ name := "text", type := "string", size := size }] }]

def labelPacket (size : Option UInt64) : Packet where
  id := 1
  name := "label"
  fields := [{ name := "text", type := .string, unit := some "", stringSize := size }]

def labelSchema (size : Option UInt64) : Schema := ({} : Schema).addPacket (labelPacket size)

theorem buildSchema_label (size : Option UInt64) :
    buildSchema (label size) = .ok (labelSchema size) :=
  rfl

theorem mem_labelSchema (size : Option UInt64) : labelPacket size ∈ (labelSchema size).packets :=
  List.mem_cons_self

theorem buildSchema_decodable_iff_label :
    Decodable .x86 (labelSchema (some 4)) (labelPacket (some 4)) := by
  have hiff := buildSchema_decodable_iff .x86 (buildSchema_label (some 4))
  refine hiff.mpr ?_ _ (mem_labelSchema _)
  simp only [label, List.forall_mem_singleton]
  have hwidths : ([4] : List Nat).sum < 2 ^ 63 := by decide
  exact ⟨by simp, hwidths⟩

theorem label_not_decodable :
    buildSchema (label none) = .ok (labelSchema none) ∧
      ¬∀ p ∈ (labelSchema none).packets, Decodable .x86 (labelSchema none) p := by
  refine ⟨rfl, fun h => ?_⟩
  have hdecodable := h (labelPacket none) (mem_labelSchema none)
  rw [decodable_iff .x86 (buildSchema_valid (buildSchema_label none)) (mem_labelSchema none)]
    at hdecodable
  exact absurd (hdecodable.1 _ List.mem_cons_self) (by decide)

theorem toNat_foldl_add (xs : List Field) (n : UInt64) :
    (xs.foldl (fun size field => size + field.byteSize) n).toNat =
      (n.toNat + (xs.map fun f => f.byteSize.toNat).sum) % 2 ^ 64 := by
  induction xs generalizing n with
  | nil => simp [Nat.mod_eq_of_lt n.toNat_lt]
  | cons x xs ih =>
    rw [List.foldl_cons, ih, UInt64.toNat_add, List.map_cons, List.sum_cons]
    omega

theorem toNat_totalSize (p : Packet) :
    p.totalSize.toNat = (p.fields.map fun f => f.byteSize.toNat).sum % 2 ^ 64 := by
  rw [Packet.totalSize, toNat_foldl_add]
  simp

/-- By how many bytes `byteSize` is off, from the keys of the field: a size on
anything but a string multiplies the size of its type, bits on anything but a
bitfield replace it, and the bits of a bitfield are rounded up to bytes only. -/
def sizeGap (f : Field) : Int :=
  match f.type, f.arraySize, f.bitCount with
  | .string, _, _ => 0
  | type, some n, _ => (n * dataTypeSize type).toNat - wireWidth f
  | .bitfield, none, some n => ((n.toNat + 7) / 8 : Nat) - containerWidth n
  | .bitfield, none, none => -1
  | type, none, some n => ((n.toNat + 7) / 8 : Nat) - (dataTypeSize type).toNat
  | _, none, none => 0

theorem byteSize_eq {irField : IRField} {f : Field} (h : buildField irField = .ok f)
    (hfixed : f.isFixedSize = true) : (f.byteSize.toNat : Int) = wireWidth f + sizeGap f := by
  obtain ⟨type, hbytes, -, rfl⟩ := buildField_eq_ok_iff.mp h
  have hbits (n : UInt8) : (UInt64.ofNat ((n.toNat + 7) / 8)).toNat = (n.toNat + 7) / 8 := by
    have hn := n.toNat_lt
    exact UInt64.toNat_ofNat_of_lt' (lt_of_lt_of_le (by omega) (by decide : 33 ≤ UInt64.size))
  cases type with
  | bytes => exact absurd rfl hbytes
  | string =>
    cases hsize : irField.size with
    | none => simp [Field.isFixedSize, fieldOf, hsize] at hfixed
    | some n => simp [Field.byteSize, wireWidth, sizeGap, fieldOf, hsize]
  | bitfield =>
    cases hsize : irField.size <;> cases hbit : irField.bitCount <;>
      simp [Field.byteSize, wireWidth, sizeGap, fieldOf, hsize, hbit, dataTypeSize, hbits,
        containerWidth]
  | _ =>
    cases hsize : irField.size <;> cases hbit : irField.bitCount <;>
      simp [Field.byteSize, wireWidth, sizeGap, fieldOf, hsize, hbit, dataTypeSize, hbits]

theorem sum_byteSize_eq {fs : List Field}
    (h : ∀ f ∈ fs, (f.byteSize.toNat : Int) = wireWidth f + sizeGap f) :
    (((fs.map fun f => f.byteSize.toNat).sum : Nat) : Int) =
      ((fs.map wireWidth).sum : Nat) + (fs.map sizeGap).sum := by
  induction fs with
  | nil => rfl
  | cons f fs ih =>
    have hf := h f List.mem_cons_self
    have hfs := ih fun g hg => h g (List.mem_cons_of_mem f hg)
    simp only [List.map_cons, List.sum_cons]
    push_cast at hfs ⊢
    omega

theorem sum_eq_totalSize_iff (h : buildSchema ir = .ok s) {p : Packet} (hp : p ∈ s.packets)
    (hfixed : p.isFixedSize = true) :
    (p.fields.map wireWidth).sum = p.totalSize.toNat ↔
      (p.fields.map wireWidth).sum < 2 ^ 64 ∧ (2 ^ 64 : Int) ∣ (p.fields.map sizeGap).sum := by
  have hgap := (forall_fields_iff h fun f => f.isFixedSize = true →
    (f.byteSize.toNat : Int) = wireWidth f + sizeGap f).mpr
      fun _ _ _ _ f hf hfix => byteSize_eq hf hfix
  have hsum := sum_byteSize_eq fun f hf => hgap p hp f hf (List.all_eq_true.mp hfixed f hf)
  rw [toNat_totalSize]
  generalize (p.fields.map fun f => f.byteSize.toNat).sum = total at *
  generalize (p.fields.map wireWidth).sum = width at *
  omega

/-- `totalSize` bytes are enough, and are what is read, exactly when every string
has a size and the gaps of the fields cancel; past the longest buffer it no
longer matters. -/
theorem decode_totalSize_iff (host : Host) (h : buildSchema ir = .ok s) {p : Packet}
    (hp : p ∈ s.packets) (hfixed : p.isFixedSize = true) :
    (∀ d : Decoder, d.schema = s → d.options.stopOnError = true →
      d.options.validateConstraints = false → ∀ r : ByteBufferReader, r.Valid →
        r.pos + p.totalSize.toNat ≤ r.size → ∃ packet, decode host d p.id r =
          (.ok packet, { r with pos := r.pos + p.totalSize.toNat })) ↔
      2 ^ 63 ≤ p.totalSize.toNat ∨ (∀ f ∈ p.fields, Sized f) ∧
        (p.fields.map wireWidth).sum < 2 ^ 64 ∧ (2 ^ 64 : Int) ∣ (p.fields.map sizeGap).sum := by
  rw [← sum_eq_totalSize_iff h hp hfixed]
  have hfind := Schema.findPacketById_of_mem (buildSchema_valid h) hp
  constructor
  · intro hall
    by_cases hbig : 2 ^ 63 ≤ p.totalSize.toNat
    · exact .inl hbig
    · -- A buffer of exactly `totalSize` bytes decides.
      have hr : (ByteBufferReader.mk (List.replicate p.totalSize.toNat 0) 0).Valid :=
        .mk_zero (by simpa using hbig)
      obtain ⟨packet, hdecode⟩ :=
        hall { schema := s, options := { validateConstraints := false } } rfl rfl rfl _ hr
          (by simp [ByteBufferReader.size])
      have hsized := (decode_ok_iff host rfl rfl hfind hr).mp ⟨packet, _, hdecode⟩
      have hreader := congrArg ByteBufferReader.pos (decode_reader rfl hfind hr hdecode)
      exact .inr ⟨hsized.1, by simpa using hreader.symm⟩
  · rintro (hbig | ⟨hsized, hsum⟩) d rfl hstop hvalidate r hr hfit
    · have hsize := hr.size_lt
      omega
    · rw [← hsum] at hfit ⊢
      obtain ⟨packet, r', hdecode⟩ := decode_of_sized hvalidate hfind hr hsized hfit
      have hreader := decode_reader hstop hfind hr hdecode
      subst hreader
      exact ⟨packet, hdecode⟩

def mask (bits : UInt8) : IRSchema where
  packets := [{ id := 1, name := "mask",
                fields := [{ name := "bits", type := "bitfield", bitCount := some bits }] }]

def maskPacket (bits : UInt8) : Packet where
  id := 1
  name := "mask"
  fields := [{ name := "bits", type := .bitfield, unit := some "", bitCount := some bits }]

def maskDecoder (bits : UInt8) : Decoder where
  schema := ({} : Schema).addPacket (maskPacket bits)
  options := { validateConstraints := false }

theorem buildSchema_mask (bits : UInt8) : buildSchema (mask bits) = .ok (maskDecoder bits).schema :=
  rfl

theorem mem_mask (bits : UInt8) : maskPacket bits ∈ (maskDecoder bits).schema.packets :=
  List.mem_cons_self

theorem decode_totalSize_iff_mask :
    ∃ packet, decode .x86 (maskDecoder 16) 1 ⟨[1, 2], 0⟩ = (.ok packet, ⟨[1, 2], 2⟩) := by
  have hiff := decode_totalSize_iff .x86 (buildSchema_mask 16) (mem_mask 16) rfl
  have hr : (ByteBufferReader.mk [1, 2] 0).Valid := .mk_zero (by decide)
  exact hiff.mpr (.inr (by decide)) (maskDecoder 16) rfl rfl rfl ⟨[1, 2], 0⟩ hr (by decide)

/-- Twenty bits are three bytes for the schema and four for the decoder. -/
theorem mask_not_decoded :
    buildSchema (mask 20) = .ok (maskDecoder 20).schema ∧ (maskPacket 20).isFixedSize = true ∧
      (maskPacket 20).totalSize = 3 ∧
      ¬∃ packet r', decode .x86 (maskDecoder 20) 1 ⟨[1, 2, 3], 0⟩ = (.ok packet, r') := by
  refine ⟨rfl, rfl, rfl, ?_⟩
  have hfind : (maskDecoder 20).schema.findPacketById 1 = some (maskPacket 20) := rfl
  have hr : (ByteBufferReader.mk [1, 2, 3] 0).Valid := .mk_zero (by decide)
  rw [decode_ok_iff .x86 rfl rfl hfind hr]
  decide

end IONet.Accepted
