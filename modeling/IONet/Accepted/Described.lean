import IONet.Accepted.Frontends
import IONet.Codec.Bitfields
import IONet.Codec.Monotone

namespace IONet.Accepted

open IONet.Core Codec Codec.Decoder SchemaParserBase Lib.LastIndex Lib.Slots

inductive Takes (doc : FieldDoc) : Nat → Prop
  | word {type : DataType} (htype : doc.type = dataTypeToString type)
      (hnumeric : isNumeric type = true) : Takes doc (dataTypeSize type).toNat
  | bitfield (htype : doc.type = "bitfield") :
      Takes doc (containerWidth ((doc.bits.map fun n => UInt8.ofInt n.val).getD 8))
  | string (htype : doc.type = "string") :
      Takes doc ((doc.size.map fun n => n.val.toNat).getD 0)

/-- What the bytes of a field say.  A word is read in the named order, of the
bytes as they lie or, on a little-endian host, mirrored. -/
inductive Means (host : Host) (order : ByteOrder) (doc : FieldDoc) (bs : List UInt8) : Value → Prop
  | signed {type : DataType} {v : Int64} (htype : doc.type = dataTypeToString type)
      (hsigned : isSigned type = true)
      (hval : v.toInt = (container host order bs : Int).bmod (256 ^ bs.length)) :
      Means host order doc bs (.int64 v)
  | unsigned {type : DataType} {v : UInt64} (htype : doc.type = dataTypeToString type)
      (hunsigned : isUnsigned type = true) (hval : v.toNat = container host order bs) :
      Means host order doc bs (.uint64 v)
  | float32 {bits : UInt32} (htype : doc.type = "float32")
      (hval : bits.toNat = container host order bs) :
      Means host order doc bs (.double (Double.ofBits32 bits))
  | float64 {bits : UInt64} (htype : doc.type = "float64")
      (hval : bits.toNat = container host order bs) :
      Means host order doc bs (.double (Double.ofBits64 bits))
  | bitfield {v : UInt64} (htype : doc.type = "bitfield")
      (hval : v.toNat = container host order bs) : Means host order doc bs (.uint64 v)
  | string (htype : doc.type = "string") : Means host order doc bs (.string bs)

structure Meets (host : Host) (order : ByteOrder) (o : DecodeOptions) (doc : FieldDoc)
    (bs : List UInt8) (field : DecodedField) : Prop where
  name : field.name = doc.name
  type : dataTypeToString field.type = doc.type
  unit : field.unit = doc.unit.getD ""
  raw : Means host order doc bs field.rawValue
  scaled : o.applyScaling = true → doc.scale ≠ none ∨ doc.offset ≠ none →
    ∀ x, field.rawValue.numeric = some x → field.scaledValue =
      .double ((x.mul (doc.scale.getD (Double.ofInt 1))).add (doc.offset.getD (Double.ofInt 0)))
  unscaled : o.applyScaling = false ∨ doc.scale = none ∧ doc.offset = none ∨
    field.rawValue.numeric = none → field.scaledValue = field.rawValue
  inside : o.stopOnError = true → o.validateConstraints = true →
    ∀ x, field.asDouble = some x → (∀ lo, doc.min = some lo → ¬x.lt lo) ∧
      ∀ hi, doc.max = some hi → ¬hi.lt x
  isBitfield : field.bitfield ≠ none ↔ doc.type = "bitfield"
  flags : ∀ bits, field.bitfield = some bits → field.rawValue = .uint64 bits.rawValue ∧
    ∀ n, bits.flags.lookup n = ((doc.flags.getD []).findRev? fun flag => flag.name = n).map
      fun flag => bits.bitAt host (UInt8.ofInt flag.bit.val)

/-- The decoded fields lie one behind another, from `p` up to `q`.  One is missing
where the buffer ends before it or it is a string of no size, and only if errors
do not stop the decoder. -/
inductive Laid (host : Host) (order : ByteOrder) (o : DecodeOptions) (data : List UInt8) :
    List FieldDoc → Nat → List (Option DecodedField) → Nat → Prop
  | nil {p : Nat} : Laid host order o data [] p [] p
  | read {doc : FieldDoc} {docs : List FieldDoc} {p q n : Nat} {field : DecodedField}
      {results : List (Option DecodedField)} (htakes : Takes doc n) (hfit : p + n ≤ data.length)
      (hmeets : Meets host order o doc (window data p n) field)
      (h : Laid host order o data docs (p + n) results q) :
      Laid host order o data (doc :: docs) p (some field :: results) q
  | missed {doc : FieldDoc} {docs : List FieldDoc} {p q n : Nat}
      {results : List (Option DecodedField)} (hgoesOn : o.stopOnError = false)
      (htakes : Takes doc n) (hshort : data.length < p + n ∨ n = 0)
      (h : Laid host order o data docs p results q) :
      Laid host order o data (doc :: docs) p (none :: results) q

structure Described (host : Host) (order : ByteOrder) (o : DecodeOptions) (doc : PacketDoc)
    (r : ByteBufferReader) (packet : DecodedPacket) (r' : ByteBufferReader) : Prop where
  id : packet.packetId = UInt32.ofInt doc.id.val
  name : packet.packetName = doc.name
  buffer : r'.data = r.data
  fields : ∃ results, packet.fields = results.reduceOption ∧
    Laid host order o r.data doc.fields r.pos results r'.pos

variable {host : Host} {order : ByteOrder} {s : Schema} {o : DecodeOptions} {doc : FieldDoc}
  {type : DataType} {f : Field} {r : ByteBufferReader} {v : Value}

theorem toNat_ofInt {n : Int} (h : InWidth 64 n) : (UInt64.ofInt n).toNat = n.toNat := by
  obtain ⟨hlo, hhi⟩ := h
  rw [UInt64.ofInt, UInt64.toNat_ofNat']
  omega

theorem takes_fieldOf (hfits : doc.Fits InWidth) (htype : doc.type = dataTypeToString type)
    (hbytes : type ≠ .bytes) : Takes doc (wireWidth (fieldOf doc.toIR type)) := by
  cases type with
  | bitfield => exact .bitfield htype
  | string =>
    have hwidth : wireWidth (fieldOf doc.toIR .string) =
        (doc.size.map fun n => n.val.toNat).getD 0 := by
      simp only [wireWidth, fieldOf, FieldDoc.toIR, if_true]
      cases hsize : doc.size with
      | none => rfl
      | some n => exact toNat_ofInt (hfits.size n hsize)
    rw [hwidth]
    exact .string htype
  | bytes => exact absurd rfl hbytes
  | _ => exact .word htype rfl

theorem eq_of_map_eq {m : ReadM α} {g : α → Value} {a : α} {r' q : ByteBufferReader}
    (hread : m r = (.ok a, r')) (h : m.map g r = (.ok v, q)) : v = g a := by
  rw [ReadM.map_eq hread, Prod.mk.injEq, Except.ok.injEq] at h
  exact h.1.symm

theorem container_byte (host : Host) (order : ByteOrder) (b : UInt8) :
    container host order [b] = b.toNat := by
  unfold container
  cases hn : host.native <;> cases order.resolve host <;>
    simp [Host.mirror, hn, wireVal, Lib.Bytes.beVal]

theorem container_window_byte (host : Host) (order : ByteOrder) (hfit : r.pos + 1 ≤ r.size) :
    container host order (window r.data r.pos 1) = (r.bytesAt 1 0).toNat := by
  have hwindow : window r.data r.pos 1 = [r.bytesAt 1 0] := by
    rw [← ByteBufferReader.ofFn_bytesAt hfit]
    rfl
  rw [hwindow, container_byte]

theorem toInt_eq_bmod {k : Nat} (b : BitVec k) {bs : List UInt8} (hlen : 256 ^ bs.length = 2 ^ k)
    (hpattern : (b.toInt % 2 ^ k).toNat = container host order bs) :
    b.toInt = (container host order bs : Int).bmod (256 ^ bs.length) := by
  rw [hlen, ← hpattern, Scalar.toNat_emod_toInt, BitVec.toInt_eq_toNat_bmod]

theorem means_of_typedRead (htype : doc.type = dataTypeToString type) (hbytes : type ≠ .bytes)
    (hr : r.Valid) (hfit : r.pos + wireWidth (fieldOf doc.toIR type) ≤ r.size)
    {q : ByteBufferReader} (h : typedRead host (fieldOf doc.toIR type) order r = (.ok v, q)) :
    Means host order doc (window r.data r.pos (wireWidth (fieldOf doc.toIR type))) v := by
  have hlen : (window r.data r.pos (wireWidth (fieldOf doc.toIR type))).length =
      wireWidth (fieldOf doc.toIR type) := length_window hfit
  cases type with
  | bytes => exact absurd rfl hbytes
  | int8 =>
    cases eq_of_map_eq (ByteBufferReader.readFixed_eq hr _ hfit) h
    refine .signed htype rfl ?_
    rw [Int8.toInt_toInt64]
    refine toInt_eq_bmod (r.bytesAt 1 0).toBitVec (congrArg (256 ^ ·) hlen) ?_
    rw [Scalar.toNat_emod_toInt]
    exact (container_window_byte host order hfit).symm
  | int16 =>
    obtain ⟨w, hread, hw⟩ := Scalar.read_eq host .int16 order hr hfit
    cases eq_of_map_eq hread h
    have hword := toInt_eq_bmod (Int16.toBitVec w) (congrArg (256 ^ ·) hlen) hw
    exact .signed htype rfl ((Int16.toInt_toInt64 w).trans hword)
  | int32 =>
    obtain ⟨w, hread, hw⟩ := Scalar.read_eq host .int32 order hr hfit
    cases eq_of_map_eq hread h
    have hword := toInt_eq_bmod (Int32.toBitVec w) (congrArg (256 ^ ·) hlen) hw
    exact .signed htype rfl ((Int32.toInt_toInt64 w).trans hword)
  | int64 =>
    obtain ⟨w, hread, hw⟩ := Scalar.read_eq host .int64 order hr hfit
    cases eq_of_map_eq hread h
    exact .signed htype rfl (toInt_eq_bmod (Int64.toBitVec w) (congrArg (256 ^ ·) hlen) hw)
  | uint8 =>
    cases eq_of_map_eq (ByteBufferReader.readFixed_eq hr _ hfit) h
    refine .unsigned htype rfl ?_
    rw [UInt8.toNat_toUInt64]
    exact (container_window_byte host order hfit).symm
  | uint16 =>
    obtain ⟨w, hread, hw⟩ := readUInt16_eq host order hr hfit
    cases eq_of_map_eq hread h
    exact .unsigned htype rfl ((UInt16.toNat_toUInt64 w).trans hw)
  | uint32 =>
    obtain ⟨w, hread, hw⟩ := readUInt32_eq host order hr hfit
    cases eq_of_map_eq hread h
    exact .unsigned htype rfl ((UInt32.toNat_toUInt64 w).trans hw)
  | uint64 =>
    obtain ⟨w, hread, hw⟩ := readUInt64_eq host order hr hfit
    cases eq_of_map_eq hread h
    exact .unsigned htype rfl hw
  | float32 =>
    obtain ⟨w, hread, hw⟩ := readUInt32_eq host order hr hfit
    cases eq_of_map_eq hread h
    exact .float32 htype hw
  | float64 =>
    obtain ⟨w, hread, hw⟩ := readUInt64_eq host order hr hfit
    cases eq_of_map_eq hread h
    exact .float64 htype hw
  | bitfield =>
    obtain ⟨w, hread, hw⟩ := readBits_eq host _ order hr hfit
    cases eq_of_map_eq hread h
    exact .bitfield htype hw
  | string =>
    cases eq_of_map_eq (ByteBufferReader.readBlock_eq hr _ hfit) h
    exact .string htype

theorem flags_meet (doc : FieldDoc) (type : DataType) (w : UInt64) (n : String) :
    (decodeBitfield host w (fieldOf doc.toIR type)).flags.lookup n =
      ((doc.flags.getD []).findRev? fun flag => flag.name = n).map fun flag =>
        (decodeBitfield host w (fieldOf doc.toIR type)).bitAt host (UInt8.ofInt flag.bit.val) := by
  have hlookup := lookup_foldl_insert BitFlag.name
    (fun flag => host.shiftRight w flag.bit &&& 1 != 0) (fieldOf doc.toIR type).bitFlags n
  refine hlookup.trans ?_
  simp only [fieldOf, FieldDoc.toIR, List.findRev?_eq_find?_reverse, ← List.map_reverse,
    List.find?_map, Option.map_map]
  rfl

theorem scaling_fieldOf (type : DataType) (h : doc.scale ≠ none ∨ doc.offset ≠ none) :
    (fieldOf doc.toIR type).scaling = some {
      scale := doc.scale.getD (Double.ofInt 1)
      offset := doc.offset.getD (Double.ofInt 0) } := by
  have hgiven : doc.scale.isSome || doc.offset.isSome := by
    simpa [← Option.ne_none_iff_isSome] using h
  exact if_pos hgiven

theorem unscaled_fieldOf (type : DataType) (h : doc.scale = none ∧ doc.offset = none) :
    (fieldOf doc.toIR type).scaling = none := by
  have hgiven : ¬(doc.scale.isSome || doc.offset.isSome) := by simp [h]
  exact if_neg hgiven

theorem type_unique {type' : DataType} (htype : doc.type = dataTypeToString type)
    (htype' : doc.type = dataTypeToString type') : type' = type :=
  (dataTypeToString_inj.mp (htype.symm.trans htype')).symm

theorem Means.unsigned_inv {bs : List UInt8} (h : Means host order doc bs v)
    (htype : doc.type = dataTypeToString type) (hunsigned : isUnsigned type = true) :
    ∃ w, v = .uint64 w ∧ w.toNat = container host order bs := by
  cases h with
  | unsigned _ _ hval => exact ⟨_, rfl, hval⟩
  | bitfield _ hval => exact ⟨_, rfl, hval⟩
  | signed htype' hsigned =>
    rw [type_unique htype htype'] at hsigned
    cases type <;> simp_all [isSigned, isUnsigned]
  | float32 htype' => cases (type_unique htype' htype : type = .float32); cases hunsigned
  | float64 htype' => cases (type_unique htype' htype : type = .float64); cases hunsigned
  | string htype' => cases (type_unique htype' htype : type = .string); cases hunsigned

theorem Takes.word_inv {n : Nat} (h : Takes doc n) (htype : doc.type = dataTypeToString type)
    (hnumeric : isNumeric type = true) : n = (dataTypeSize type).toNat := by
  cases h with
  | word htype' => rw [type_unique htype htype']
  | bitfield htype' => cases (type_unique htype' htype : type = .bitfield); cases hnumeric
  | string htype' => cases (type_unique htype' htype : type = .string); cases hnumeric

theorem scaledValue_of_text {d : Decoder} (h : v.numeric = none) : d.scaledValue f v = v := by
  unfold Decoder.scaledValue
  split
  · simp only [applyScaling, h]
  · rfl

theorem flagsOf_of_means {bs : List UInt8} (htype : doc.type = dataTypeToString type)
    (hmeans : Means host order doc bs v) :
    flagsOf host (fieldOf doc.toIR type) v = none ∧ doc.type ≠ "bitfield" ∨
      doc.type = "bitfield" ∧ ∃ w, v = .uint64 w ∧
        flagsOf host (fieldOf doc.toIR type) v =
          some (decodeBitfield host w (fieldOf doc.toIR type)) := by
  have hbitfield : doc.type = "bitfield" ↔ type = .bitfield := by
    rw [htype]
    exact (dataTypeToString_inj : _ ↔ type = .bitfield)
  by_cases h : type = .bitfield
  · refine .inr ⟨hbitfield.mpr h, ?_⟩
    subst h
    cases hmeans with
    | bitfield => exact ⟨_, rfl, rfl⟩
    | unsigned htype' hunsigned => simp [type_unique htype htype', isUnsigned] at hunsigned
    | signed htype' hsigned => simp [type_unique htype htype', isSigned] at hsigned
    | float32 htype' => cases (type_unique htype htype' : DataType.float32 = .bitfield)
    | float64 htype' => cases (type_unique htype htype' : DataType.float64 = .bitfield)
    | string htype' => cases (type_unique htype htype' : DataType.string = .bitfield)
  · refine .inl ⟨?_, mt hbitfield.mp h⟩
    have hne : (fieldOf doc.toIR type).type ≠ .bitfield := h
    unfold flagsOf
    split
    · contradiction
    · rfl

theorem meets_present {bs : List UInt8} (htype : doc.type = dataTypeToString type)
    (hmeans : Means host order doc bs v)
    (hpasses : o.stopOnError = true →
      violation ⟨s, o⟩ (fieldOf doc.toIR type)
        (present host ⟨s, o⟩ (fieldOf doc.toIR type) v) = none) :
    Meets host order o doc bs (present host ⟨s, o⟩ (fieldOf doc.toIR type) v) := by
  constructor
  case name => rfl
  case type => exact htype.symm
  case unit => rfl
  case raw => exact hmeans
  case scaled =>
    intro happly hscales x hx
    change Decoder.scaledValue ⟨s, o⟩ (fieldOf doc.toIR type) v = _
    have hnumeric : v.numeric = some x := hx
    rw [Decoder.scaledValue, happly, scaling_fieldOf type hscales]
    simp only [applyScaling, hnumeric]
  case unscaled =>
    change _ → Decoder.scaledValue ⟨s, o⟩ (fieldOf doc.toIR type) v = v
    rintro (hoff | hplain | htext)
    · exact scaledValue_of_unscaled (.inl hoff) v
    · exact scaledValue_of_unscaled (.inr (unscaled_fieldOf type hplain)) v
    · exact scaledValue_of_text htext
  case inside =>
    intro hstop hvalidate x hx
    have hcheck := violation_eq_none_iff.mp (hpasses hstop) hvalidate
    exact validateConstraints_eq_ok_iff.mp hcheck x hx
  case isBitfield =>
    change flagsOf host (fieldOf doc.toIR type) v ≠ none ↔ _
    rcases flagsOf_of_means htype hmeans with ⟨hnone, hne⟩ | ⟨heq, w, -, hsome⟩
    · simp [hnone, hne]
    · simp [hsome, heq]
  case flags =>
    intro bits hbits
    change flagsOf host (fieldOf doc.toIR type) v = some bits at hbits
    rcases flagsOf_of_means htype hmeans with ⟨hnone, -⟩ | ⟨-, w, rfl, hsome⟩
    · rw [hnone] at hbits
      cases hbits
    · rw [hsome] at hbits
      cases hbits
      exact ⟨rfl, fun n => flags_meet doc type w n⟩

def BuiltFrom (doc : FieldDoc) (f : Field) : Prop := doc.Fits InWidth ∧ buildField doc.toIR = .ok f

theorem short_of_fault {message : String} (hr : r.Valid) (h : fault order f r = some message) :
    r.size < r.pos + wireWidth f ∨ wireWidth f = 0 := by
  unfold fault at h
  split_ifs at h with hs
  · refine .inl (Nat.lt_of_not_le fun hfit => ?_)
    rw [← count_readOp order, ← ReadOp.thrown_eq_none_iff hr] at hfit
    rw [hfit] at h
    cases h
  · refine .inr ?_
    unfold Sized at hs
    unfold wireWidth
    cases htype : f.type <;> simp_all

theorem laid_of_decodeFields {docs : List FieldDoc} {fs : List Field}
    (hbuilt : List.Forall₂ BuiltFrom docs fs) {result packet : DecodedPacket}
    {r' : ByteBufferReader} (hr : r.Valid)
    (h : decodeFields host ⟨s, o⟩ order fs result r = (.ok packet, r')) :
    ∃ results, packet.fields = result.fields ++ results.reduceOption ∧
      Laid host order o r.data docs r.pos results r'.pos := by
  induction hbuilt generalizing r result with
  | nil =>
    cases h
    exact ⟨[], by simp [List.reduceOption], .nil⟩
  | @cons doc f docs fs hfirst _ ih =>
    obtain ⟨hfits, hf⟩ := hfirst
    obtain ⟨type, hbytes, htype, rfl⟩ := buildField_eq_ok_iff.mp hf
    have htakes := takes_fieldOf hfits htype hbytes
    cases hfault : fault order (fieldOf doc.toIR type) r with
    | some message =>
      rw [decodeFields_cons_of_fault hfault] at h
      cases hstop : o.stopOnError with
      | true =>
        simp only [hstop, if_true] at h
        cases h
      | false =>
        simp only [hstop, Bool.false_eq_true, if_false] at h
        obtain ⟨results, hfields, hlaid⟩ := ih hr h
        refine ⟨none :: results, by simpa [List.reduceOption_cons_of_none] using hfields, ?_⟩
        exact .missed hstop htakes (short_of_fault hr hfault) hlaid
    | none =>
      obtain ⟨hs, hfit, datum, hrun⟩ := run_of_no_fault host hr hfault
      have hfield := decodeField_of_run ⟨s, o⟩ hs hrun
      rw [decodeFields_cons_of_read hfield] at h
      have hread : typedRead host (fieldOf doc.toIR type) order r =
          (.ok (datumValue datum),
            { r with pos := r.pos + wireWidth (fieldOf doc.toIR type) }) := by
        rw [typedRead_eq]
        exact ReadM.map_eq hrun _
      have hmeans := means_of_typedRead htype hbytes hr hfit hread
      split at h
      case h_1 => cases h
      case h_2 hpasses =>
        obtain ⟨results, hfields, hlaid⟩ := ih (hr.at hfit) h
        refine ⟨some _ :: results, by simpa [List.reduceOption_cons_of_some] using hfields, ?_⟩
        refine .read htakes hfit (meets_present htype hmeans fun hstop => ?_) hlaid
        simpa [hstop] using hpasses

theorem described_of_decode {packetDoc : PacketDoc} (hfits : packetDoc.Fits InWidth) {p : Packet}
    (hbuild : buildPacket packetDoc.toIR = .ok p)
    (hid : s.findPacketById (UInt32.ofInt packetDoc.id.val) = some p) {r' : ByteBufferReader}
    (hr : r.Valid) {packet : DecodedPacket}
    (h : decode host ⟨s, o⟩ (UInt32.ofInt packetDoc.id.val) r = (.ok packet, r')) :
    Described host s.byteOrder o packetDoc r packet r' := by
  obtain ⟨fs, hfs, rfl⟩ := buildPacket_eq_ok_iff.mp hbuild
  rw [decode_of_find hid] at h
  have hbuilt : List.Forall₂ BuiltFrom packetDoc.fields fs := by
    rw [PacketDoc.toIR, List.forall₂_map_left_iff] at hfs
    refine List.forall₂_iff_get.mpr ⟨hfs.length_eq, fun i hi hi' => ⟨?_, hfs.get hi hi'⟩⟩
    exact hfits.fields _ (List.get_mem ..)
  have hpacket := packet_of_decodeFields h
  have hbuffer := (decodeFields_bounds host ⟨s, o⟩ s.byteOrder fs
    { packetId := UInt32.ofInt packetDoc.id.val, packetName := packetDoc.toIR.name } hr).2
  refine ⟨?_, ?_, (congrArg (·.2.data) h).symm.trans hbuffer, ?_⟩
  · rw [hpacket, DecodedPacket.packetId_foldl_addField]
  · rw [hpacket, DecodedPacket.packetName_foldl_addField]
    rfl
  · simpa using laid_of_decodeFields hbuilt hr h

end IONet.Accepted
