import IONet.Codec.WireLayout
import IONet.Core.WireOrder
import IONet.Schema.SchemaParser

namespace IONet.Codec

open IONet.Core Decoder Lib.LastIndex Lib.Bytes Lib.Slots SchemaParserBase

section

variable (host : Host)

/-- A declared flag is set by name as it is by bit, and no other name is set. -/
structure FlagsAgree (f : Field) (raw : UInt64) : Prop where
  declared : ∀ flag ∈ f.bitFlags,
    (decodeBitfield host raw f).isSet flag.name = (decodeBitfield host raw f).bitAt host flag.bit
  others : ∀ name, name ∉ f.bitFlags.map BitFlag.name →
    (decodeBitfield host raw f).isSet name = false

theorem isSet_other {f : Field} {name : String} (h : name ∉ f.bitFlags.map BitFlag.name)
    (raw : UInt64) : (decodeBitfield host raw f).isSet name = false := by
  have hnone := (lookup_foldl_insert_eq_none_iff BitFlag.name
    (fun flag => host.shiftRight raw flag.bit &&& 1 != 0) f.bitFlags name).mpr h
  rw [DecodedBitfield.isSet, decodeBitfield, hnone, Option.getD_none]

theorem isSet_eq_bitAt_iff {f : Field} {flag : BitFlag} (hflag : flag ∈ f.bitFlags) (raw : UInt64) :
    (decodeBitfield host raw f).isSet flag.name = (decodeBitfield host raw f).bitAt host flag.bit ↔
      (decodeBitfield host raw f).flags.lookup flag.name =
        some ((decodeBitfield host raw f).bitAt host flag.bit) := by
  have hmem : flag.name ∈ f.bitFlags.map BitFlag.name := List.mem_map_of_mem hflag
  have hfound := mt (lookup_foldl_insert_eq_none_iff BitFlag.name
    (fun flag => host.shiftRight raw flag.bit &&& 1 != 0) f.bitFlags flag.name).mp
    (not_not.mpr hmem)
  obtain ⟨b, hb⟩ := Option.ne_none_iff_exists'.mp hfound
  change (decodeBitfield host raw f).flags.lookup flag.name = some b at hb
  rw [DecodedBitfield.isSet, hb, Option.getD_some, Option.some.injEq]

theorem flagsAgree_iff_bitAt (f : Field) (raw : UInt64) :
    FlagsAgree host f raw ↔ ∀ a ∈ f.bitFlags, ∀ b ∈ f.bitFlags, a.name = b.name →
      (decodeBitfield host raw f).bitAt host a.bit =
        (decodeBitfield host raw f).bitAt host b.bit := by
  have hown := lookup_foldl_insert_own_iff BitFlag.name
    (fun flag => host.shiftRight raw flag.bit &&& 1 != 0) f.bitFlags
  constructor
  · intro h
    exact hown.mp fun flag hflag => (isSet_eq_bitAt_iff host hflag raw).mp (h.declared flag hflag)
  · intro h
    refine ⟨fun flag hflag => ?_, fun _ hname => isSet_other host hname raw⟩
    exact (isSet_eq_bitAt_iff host hflag raw).mpr (hown.mpr h flag hflag)

theorem bitAt_eq_testBit {bit : UInt8} (h : bit < 64) (bf : DecodedBitfield) :
    bf.bitAt host bit = bf.rawValue.toNat.testBit bit.toNat := by
  have hlt : bit.toNat < 64 := h
  have hbit : (bf.rawValue >>> bit.toUInt64 &&& 1).toNat =
      bf.rawValue.toNat / 2 ^ bit.toNat % 2 := by
    rw [UInt64.toNat_and, UInt64.toNat_shiftRight, UInt8.toNat_toUInt64, Nat.mod_eq_of_lt hlt,
      Nat.shiftRight_eq_div_pow]
    exact Nat.and_one_is_mod _
  rw [DecodedBitfield.bitAt, Host.shiftRight, if_pos h, Bool.eq_iff_iff, bne_iff_ne, ne_eq,
    ← UInt64.toNat_inj, hbit, Nat.testBit_eq_decide_div_mod_eq, decide_eq_true_iff]
  exact Nat.mod_two_ne_zero

theorem flagsAgree_iff_testBit {f : Field} (hbits : ∀ flag ∈ f.bitFlags, flag.bit < 64)
    (raw : UInt64) :
    FlagsAgree host f raw ↔ ∀ a ∈ f.bitFlags, ∀ b ∈ f.bitFlags, a.name = b.name →
      raw.toNat.testBit a.bit.toNat = raw.toNat.testBit b.bit.toNat := by
  rw [flagsAgree_iff_bitAt]
  refine forall₂_congr fun a ha => forall₂_congr fun b hb => imp_congr_right fun _ => ?_
  rw [bitAt_eq_testBit host (hbits a ha), bitAt_eq_testBit host (hbits b hb)]
  rfl

/-- The hash map keeps one bit for every name: by name and by bit the flags
agree as long as the flags of one name stand at one bit. -/
theorem flagsAgree_iff {f : Field} (hbits : ∀ flag ∈ f.bitFlags, flag.bit < 64) :
    (∀ raw, FlagsAgree host f raw ↔ ∀ a ∈ f.bitFlags, ∀ b ∈ f.bitFlags, a.name = b.name →
      raw.toNat.testBit a.bit.toNat = raw.toNat.testBit b.bit.toNat) ∧
    ((∀ raw, FlagsAgree host f raw) ↔
      ∀ a ∈ f.bitFlags, ∀ b ∈ f.bitFlags, a.name = b.name → a.bit = b.bit) := by
  refine ⟨flagsAgree_iff_testBit host hbits, ⟨fun h a ha b hb hname => ?_, fun h raw => ?_⟩⟩
  · have hlt : a.bit.toNat < 64 := hbits a ha
    -- a raw value in which `a` is the only bit set
    have hraw : (UInt64.ofNat (2 ^ a.bit.toNat)).toNat = 2 ^ a.bit.toNat :=
      UInt64.toNat_ofNat_of_lt' (Nat.pow_lt_pow_right (by decide) hlt)
    have hsame := (flagsAgree_iff_testBit host hbits _).mp (h (.ofNat (2 ^ a.bit.toNat)))
      a ha b hb hname
    rw [hraw, Nat.testBit_two_pow_self, eq_comm, Nat.testBit_two_pow] at hsame
    exact UInt8.toNat_inj.mp (of_decide_eq_true hsame)
  · rw [flagsAgree_iff_testBit host hbits]
    intro a ha b hb hname
    rw [h a ha b hb hname]

end

def engineStatus : Field where
  name := "engine_status"
  type := .bitfield
  bitCount := some 8
  bitFlags := [{ bit := 0, name := "engine_1_active", description := "" },
    { bit := 1, name := "engine_2_active", description := "" },
    { bit := 7, name := "abort_commanded", description := "" }]

theorem flagsAgree_iff_engineStatus : (∀ flag ∈ engineStatus.bitFlags, flag.bit < 64) ∧
    ∀ raw, FlagsAgree .x86 engineStatus raw := by
  have hbits : ∀ flag ∈ engineStatus.bitFlags, flag.bit < 64 := by decide
  exact ⟨hbits, (flagsAgree_iff .x86 hbits).2.mpr (by decide)⟩

def doors : IRSchema where
  packets := [{ id := 1, name := "doors", fields :=
    [{ name := "state", type := "bitfield",
       bitFlags := [{ bit := 0, name := "open" }, { bit := 1, name := "open" }] }] }]

def doorsField : Field where
  name := "state"
  type := .bitfield
  unit := some ""
  bitFlags := [{ bit := 0, name := "open", description := "" },
    { bit := 1, name := "open", description := "" }]

def doorsSchema : Schema :=
  ({} : Schema).addPacket { id := 1, name := "doors", fields := [doorsField] }

theorem doors_disagree : buildSchema doors = .ok doorsSchema ∧
    (∃ p ∈ doorsSchema.packets, doorsField ∈ p.fields) ∧
    (∀ flag ∈ doorsField.bitFlags, flag.bit < 64) ∧ ¬FlagsAgree .x86 doorsField 1 := by
  refine ⟨rfl, ⟨_, List.mem_cons_self, List.mem_cons_self⟩, by decide, fun h => ?_⟩
  have hdeclared := h.declared _ List.mem_cons_self
  exact absurd hdeclared (by decide)

section

variable (host : Host)

def container (order : ByteOrder) (bs : List UInt8) : Nat :=
  wireVal (order.resolve host) (host.mirror bs)

theorem container_lt (order : ByteOrder) (bs : List UInt8) :
    container host order bs < 2 ^ (8 * bs.length) := by
  have h := Host.length_mirror host bs
  rw [container, Nat.pow_mul, ← h]
  cases order.resolve host with
  | big => exact beVal_lt _
  | little => exact leVal_lt _

theorem containerWidth_cases (bitCount : UInt8) :
    containerWidth bitCount = 1 ∧ bitCount.toNat ≤ 8 ∨
    containerWidth bitCount = 2 ∧ 8 < bitCount.toNat ∧ bitCount.toNat ≤ 16 ∨
    containerWidth bitCount = 4 ∧ 16 < bitCount.toNat ∧ bitCount.toNat ≤ 32 ∨
    containerWidth bitCount = 8 ∧ 32 < bitCount.toNat := by
  unfold containerWidth
  simp only [UInt8.le_iff_toNat_le]
  have h8 : (8 : UInt8).toNat = 8 := rfl
  have h16 : (16 : UInt8).toNat = 16 := rfl
  have h32 : (32 : UInt8).toNat = 32 := rfl
  rw [h8, h16, h32]
  split_ifs <;> omega

theorem readBits_eq (bitCount : UInt8) (order : ByteOrder) {r : ByteBufferReader} (hr : r.Valid)
    (hfit : r.pos + containerWidth bitCount ≤ r.size) :
    ∃ v, readBits host bitCount order r =
        (.ok v, { r with pos := r.pos + containerWidth bitCount }) ∧
      v.toNat = container host order (window r.data r.pos (containerWidth bitCount)) := by
  unfold readBits containerWidth at *
  split_ifs at hfit ⊢
  · refine ⟨_, ReadM.map_eq (ByteBufferReader.readFixed_eq hr _ hfit) _, ?_⟩
    rw [← ByteBufferReader.ofFn_bytesAt hfit, container]
    cases hn : host.native <;> cases order.resolve host <;> simp [Host.mirror, hn, wireVal, beVal]
  · obtain ⟨v, hread, hv⟩ := readUInt16_eq host order hr hfit
    exact ⟨_, ReadM.map_eq hread _, (UInt16.toNat_toUInt64 v).trans hv⟩
  · obtain ⟨v, hread, hv⟩ := readUInt32_eq host order hr hfit
    exact ⟨_, ReadM.map_eq hread _, (UInt32.toNat_toUInt64 v).trans hv⟩
  · exact readUInt64_eq host order hr hfit

def bitsField (d : Decoder) (f : Field) (word : UInt64) : DecodedField :=
  d.decodedField f (.uint64 word, some (decodeBitfield host word f))

def BelowDeclared (n : UInt8) (field : DecodedField) : Prop :=
  ∃ v bf, field.rawValue = .uint64 v ∧ field.bitfield = some bf ∧
    v.toNat < 2 ^ n.toNat ∧ bf.rawValue.toNat < 2 ^ n.toNat

theorem belowDeclared_bitsField (d : Decoder) (f : Field) (n : UInt8) (word : UInt64) :
    BelowDeclared n (bitsField host d f word) ↔ word.toNat < 2 ^ n.toNat := by
  constructor
  · rintro ⟨v, bf, ⟨⟩, -, hv, -⟩
    exact hv
  · intro h
    exact ⟨word, decodeBitfield host word f, rfl, rfl, h, h⟩

variable {d : Decoder} {f : Field} {n : UInt8} {order : ByteOrder}

def wordAt (n : UInt8) (order : ByteOrder) (r : ByteBufferReader) : Nat :=
  container host order (window r.data r.pos (containerWidth n))

theorem decodeField_bitfield_iff (htype : f.type = .bitfield) (hn : f.bitCount = some n)
    {r : ByteBufferReader} (hr : r.Valid) {field : DecodedField} :
    (decodeField host d f order r).1 = .ok field ↔ r.pos + containerWidth n ≤ r.size ∧
      ∃ word, field = bitsField host d f word ∧ word.toNat = wordAt host n order r := by
  have hdecode : decodeField host d f order =
      caught ((readBits host n order).map (bitsField host d f)) := by
    rw [decodeField, decodeRaw, htype, hn, map_caught, map_map]
    rfl
  rw [hdecode]
  by_cases hfit : r.pos + containerWidth n ≤ r.size
  · obtain ⟨v, hread, hv⟩ := readBits_eq host n order hr hfit
    rw [caught, ReadM.map_eq hread, Except.ok.injEq, and_iff_right hfit, eq_comm]
    constructor
    · rintro rfl
      exact ⟨v, rfl, hv⟩
    · rintro ⟨word, rfl, hword⟩
      rw [UInt64.toNat_inj.mp (hword.trans hv.symm)]
  · obtain ⟨what, hwhat⟩ := (caught_reads ((readBits_reads host n order).map
      (bitsField host d f))).short r hr (Nat.lt_of_not_le hfit)
    simp [hwhat, hfit]

theorem exists_wordAt (n : UInt8) (order : ByteOrder) {word : Nat}
    (h : word < 256 ^ containerWidth n) : ∃ r : ByteBufferReader, r.Valid ∧
      r.pos + containerWidth n ≤ r.size ∧ wordAt host n order r = word := by
  have hlen : (host.mirror (wireBytes (order.resolve host) (containerWidth n) word)).length =
      containerWidth n := by simp
  have hwidth : containerWidth n ≤ 8 := by
    have hcases := containerWidth_cases n
    omega
  refine ⟨⟨host.mirror (wireBytes (order.resolve host) (containerWidth n) word), 0⟩,
    .mk_zero (by omega), by simp [ByteBufferReader.size], ?_⟩
  have hwindow := window_self (host.mirror (wireBytes (order.resolve host) (containerWidth n) word))
  rw [hlen] at hwindow
  rw [wordAt, hwindow, container, Host.mirror_mirror, wireVal_wireBytes h]

theorem whole_container_iff (hle : n ≤ 64) :
    8 * containerWidth n ≤ n.toNat ↔ n = 8 ∨ n = 16 ∨ n = 32 ∨ n = 64 := by
  have hle' : n.toNat ≤ 64 := hle
  have hcases := containerWidth_cases n
  simp only [← UInt8.toNat_inj, show (8 : UInt8).toNat = 8 from rfl,
    show (16 : UInt8).toNat = 16 from rfl, show (32 : UInt8).toNat = 32 from rfl,
    show (64 : UInt8).toNat = 64 from rfl]
  omega

theorem wordAt_lt {r : ByteBufferReader} (hfit : r.pos + containerWidth n ≤ r.size) :
    wordAt host n order r < 2 ^ (8 * containerWidth n) := by
  have hlt := container_lt host order (window r.data r.pos (containerWidth n))
  rwa [length_window hfit] at hlt

theorem lt_two_pow_iff_testBit (word n : Nat) :
    word < 2 ^ n ↔ ∀ i, n ≤ i → word.testBit i = false := by
  constructor
  · intro h i hi
    exact Nat.testBit_lt_two_pow (h.trans_le (Nat.pow_le_pow_right (by decide) hi))
  · exact Nat.lt_pow_two_of_testBit word

theorem exists_decodeField (d : Decoder) (htype : f.type = .bitfield) (hn : f.bitCount = some n)
    (order : ByteOrder) (word : Nat) (h : word < 256 ^ containerWidth n) :
    ∃ r w, r.Valid ∧ wordAt host n order r = word ∧ w.toNat = word ∧
      (decodeField host d f order r).1 = .ok (bitsField host d f w) := by
  obtain ⟨r, hr, hfit, hword⟩ := exists_wordAt host n order h
  have hmax : 256 ^ containerWidth n ≤ 256 ^ 8 := by
    have hcases := containerWidth_cases n
    exact Nat.pow_le_pow_right (by decide) (by omega)
  have hw : (UInt64.ofNat word).toNat = word := UInt64.toNat_ofNat_of_lt' (h.trans_le hmax)
  exact ⟨r, .ofNat word, hr, hword, hw,
    (decodeField_bitfield_iff host htype hn hr).mpr ⟨hfit, _, rfl, hw.trans hword.symm⟩⟩

theorem belowDeclared_iff (htype : f.type = .bitfield) (hn : f.bitCount = some n)
    {r : ByteBufferReader} (hr : r.Valid) {field : DecodedField}
    (hfield : (decodeField host d f order r).1 = .ok field) :
    BelowDeclared n field ↔ wordAt host n order r < 2 ^ n.toNat := by
  obtain ⟨-, word, rfl, hword⟩ := (decodeField_bitfield_iff host htype hn hr).mp hfield
  rw [belowDeclared_bitsField, hword]

theorem wordAt_lt_of_whole (htype : f.type = .bitfield) (hn : f.bitCount = some n)
    (hwhole : 8 * containerWidth n ≤ n.toNat) {r : ByteBufferReader} (hr : r.Valid)
    {field : DecodedField} (hfield : (decodeField host d f order r).1 = .ok field) :
    wordAt host n order r < 2 ^ n.toNat := by
  obtain ⟨hfit, -⟩ := (decodeField_bitfield_iff host htype hn hr).mp hfield
  exact (wordAt_lt host hfit).trans_le (Nat.pow_le_pow_right (by decide) hwhole)

theorem exists_padded (d : Decoder) (htype : f.type = .bitfield) (hn : f.bitCount = some n)
    (order : ByteOrder) (hpad : ¬8 * containerWidth n ≤ n.toNat) :
    ∃ r w, r.Valid ∧ wordAt host n order r = 2 ^ n.toNat ∧ w.toNat = 2 ^ n.toNat ∧
      (decodeField host d f order r).1 = .ok (bitsField host d f w) := by
  apply exists_decodeField host d htype hn order
  rw [show 256 = 2 ^ 8 from rfl, ← Nat.pow_mul]
  exact Nat.pow_lt_pow_right (by decide) (Nat.lt_of_not_le hpad)

theorem forall_belowDeclared_iff (d : Decoder) (htype : f.type = .bitfield)
    (hn : f.bitCount = some n) (order : ByteOrder) :
    (∀ r field, r.Valid → (decodeField host d f order r).1 = .ok field → BelowDeclared n field) ↔
      8 * containerWidth n ≤ n.toNat := by
  constructor
  · intro hall
    by_contra hpad
    obtain ⟨r, w, hr, -, hw, hfield⟩ := exists_padded host d htype hn order hpad
    have hlt := (belowDeclared_bitsField host d f n w).mp (hall r _ hr hfield)
    omega
  · intro hwhole r field hr hfield
    rw [belowDeclared_iff host htype hn hr hfield]
    exact wordAt_lt_of_whole host htype hn hwhole hr hfield

theorem determined_iff (d : Decoder) (htype : f.type = .bitfield) (hn : f.bitCount = some n)
    (order : ByteOrder) :
    (∀ r r' field field', r.Valid → r'.Valid → (decodeField host d f order r).1 = .ok field →
      (decodeField host d f order r').1 = .ok field' →
      wordAt host n order r % 2 ^ n.toNat = wordAt host n order r' % 2 ^ n.toNat → field = field') ↔
      8 * containerWidth n ≤ n.toNat := by
  constructor
  · intro hall
    by_contra hpad
    obtain ⟨r, w, hr, hword, hw, hfield⟩ := exists_padded host d htype hn order hpad
    obtain ⟨r', w', hr', hword', hw', hfield'⟩ :=
      exists_decodeField host d htype hn order 0 (by positivity)
    have hagree : wordAt host n order r % 2 ^ n.toNat = wordAt host n order r' % 2 ^ n.toNat := by
      rw [hword, hword', Nat.mod_self, Nat.zero_mod]
    have heq := hall r r' _ _ hr hr' hfield hfield' hagree
    have hraw : w = w' := Value.uint64.inj (congrArg DecodedField.rawValue heq)
    rw [hraw, hw'] at hw
    exact absurd hw (by positivity)
  · intro hwhole r r' field field' hr hr' hfield hfield' hsame
    rw [Nat.mod_eq_of_lt (wordAt_lt_of_whole host htype hn hwhole hr hfield),
      Nat.mod_eq_of_lt (wordAt_lt_of_whole host htype hn hwhole hr' hfield')] at hsame
    obtain ⟨-, word, rfl, hword⟩ := (decodeField_bitfield_iff host htype hn hr).mp hfield
    obtain ⟨-, word', rfl, hword'⟩ := (decodeField_bitfield_iff host htype hn hr').mp hfield'
    rw [UInt64.toNat_inj.mp (hword.trans (hsame.trans hword'.symm))]

/-- Nothing removes the padding bits of a container.  A field that declares
fewer bits than its container has shows them to whoever reads it. -/
theorem declared_bits_iff (d : Decoder) (htype : f.type = .bitfield) (hn : f.bitCount = some n)
    (hle : n ≤ 64) (order : ByteOrder) :
    (∀ r field, r.Valid → (decodeField host d f order r).1 = .ok field →
      (BelowDeclared n field ↔ ∀ i, n.toNat ≤ i → (wordAt host n order r).testBit i = false)) ∧
    ((∀ r field, r.Valid → (decodeField host d f order r).1 = .ok field → BelowDeclared n field) ↔
      n = 8 ∨ n = 16 ∨ n = 32 ∨ n = 64) ∧
    ((∀ r r' field field', r.Valid → r'.Valid → (decodeField host d f order r).1 = .ok field →
      (decodeField host d f order r').1 = .ok field' →
      wordAt host n order r % 2 ^ n.toNat = wordAt host n order r' % 2 ^ n.toNat → field = field') ↔
      n = 8 ∨ n = 16 ∨ n = 32 ∨ n = 64) := by
  rw [← whole_container_iff hle]
  refine ⟨fun r field hr hfield => ?_, forall_belowDeclared_iff host d htype hn order,
    determined_iff host d htype hn order⟩
  rw [belowDeclared_iff host htype hn hr hfield, lt_two_pow_iff_testBit]

end

theorem declared_bits_iff_engineStatus :
    (decodeField .s390x { schema := {} } engineStatus .big ⟨[0x83], 0⟩).1 =
      .ok (bitsField .s390x { schema := {} } engineStatus 0x83) ∧
    BelowDeclared 8 (bitsField .s390x { schema := {} } engineStatus 0x83) := by
  have hdecode : (decodeField .s390x { schema := {} } engineStatus .big ⟨[0x83], 0⟩).1 =
      .ok (bitsField .s390x { schema := {} } engineStatus 0x83) := rfl
  have hall := (declared_bits_iff .s390x { schema := {} } (f := engineStatus) (n := 8) rfl rfl
    (by decide) .big).2.1.mpr (.inl rfl)
  exact ⟨hdecode, hall ⟨[0x83], 0⟩ _ (.mk_zero (by decide)) hdecode⟩

def nibble : Field where
  name := "mode"
  type := .bitfield
  bitCount := some 4

/-- Four bits are declared, and the value read is 0xF3. -/
theorem nibble_padding :
    (decodeField .x86 { schema := {} } nibble .big ⟨[0xF3], 0⟩).1 =
      .ok (bitsField .x86 { schema := {} } nibble 0xF3) ∧
    (decodeField .x86 { schema := {} } nibble .big ⟨[0x03], 0⟩).1 =
      .ok (bitsField .x86 { schema := {} } nibble 0x03) ∧
    wordAt .x86 4 .big ⟨[0xF3], 0⟩ % 2 ^ 4 = wordAt .x86 4 .big ⟨[0x03], 0⟩ % 2 ^ 4 ∧
    bitsField .x86 { schema := {} } nibble 0xF3 ≠ bitsField .x86 { schema := {} } nibble 0x03 ∧
    ¬BelowDeclared 4 (bitsField .x86 { schema := {} } nibble 0xF3) := by
  refine ⟨rfl, rfl, by decide, by decide, ?_⟩
  rw [belowDeclared_bitsField]
  decide

end IONet.Codec
