import IONet.Codec.Constraints
import IONet.Codec.Written

namespace IONet.Codec

open IONet.Core Lib.Slots Decoder

/-- The raw values that the definition of a field allows. -/
inductive Inhabits (f : Field) : Value → Prop
  | signed {n : Int64} (htype : isSigned f.type = true) (hlo : -2 ^ (8 * wireWidth f - 1) ≤ n.toInt)
      (hhi : n.toInt < 2 ^ (8 * wireWidth f - 1)) : Inhabits f (.int64 n)
  | unsigned {n : UInt64} (htype : isUnsigned f.type = true)
      (hhi : n.toNat < 2 ^ (8 * wireWidth f)) : Inhabits f (.uint64 n)
  | bitfield {n : UInt64} (htype : f.type = .bitfield) (hhi : n.toNat < 2 ^ (8 * wireWidth f)) :
      Inhabits f (.uint64 n)
  | float32 {bits : UInt32} (htype : f.type = .float32) :
      Inhabits f (.double (Double.ofBits32 bits))
  | float64 {bits : UInt64} (htype : f.type = .float64) :
      Inhabits f (.double (Double.ofBits64 bits))
  | string {str : List UInt8} (htype : f.type = .string) (hlen : str.length = wireWidth f)
      (hne : str ≠ []) : Inhabits f (.string str)
  | bytes {data : List UInt8} (htype : f.type = .bytes) (hlen : data.length = wireWidth f)
      (hne : data ≠ []) : Inhabits f (.bytes data)

variable {host : Host} {d : Decoder} {order : ByteOrder} {f : Field} {fs : List Field}
  {op : WriteOp} {ops : List WriteOp} {v : Value} {r : ByteBufferReader}

theorem Inhabits.of_int (htype : isSigned f.type = true) {n : Int64} {m : Int} {k : Nat}
    (hw : wireWidth f = k) (hn : n.toInt = m) (hlo : -2 ^ (8 * k - 1) ≤ m)
    (hhi : m < 2 ^ (8 * k - 1)) : Inhabits f (.int64 n) := by
  subst hw hn
  exact .signed htype hlo hhi

theorem Inhabits.of_nat (htype : isUnsigned f.type = true ∨ f.type = .bitfield) {n : UInt64}
    {m k : Nat} (hw : wireWidth f = k) (hn : n.toNat = m) (hhi : m < 2 ^ (8 * k)) :
    Inhabits f (.uint64 n) := by
  subst hw hn
  rcases htype with htype | htype
  · exact .unsigned htype hhi
  · exact .bitfield htype hhi

theorem inhabits_container (htype : f.type = .bitfield)
    (h : op.matching = containerOp (f.bitCount.getD 8) order) :
    Inhabits f (datumValue op.datum) := by
  have hw : wireWidth f = containerWidth (f.bitCount.getD 8) := by simp only [wireWidth, htype]
  unfold containerOp at h
  unfold containerWidth at hw
  split_ifs at h hw <;> cases op <;> cases h
  · exact .of_nat (.inr htype) hw (UInt8.toNat_toUInt64 _) (UInt8.toNat_lt _)
  · exact .of_nat (.inr htype) hw (UInt16.toNat_toUInt64 _) (UInt16.toNat_lt _)
  · exact .of_nat (.inr htype) hw (UInt32.toNat_toUInt64 _) (UInt32.toNat_lt _)
  · exact .of_nat (.inr htype) hw rfl (UInt64.toNat_lt _)

theorem ne_nil_of_width {bs : List UInt8} {size : UInt64} (hlen : bs.length = wireWidth f)
    (hw : wireWidth f = size.toNat) (hsize : size ≠ 0) : bs ≠ [] := by
  rintro rfl
  exact hsize (UInt64.toNat_inj.mp (hlen.trans hw).symm)

theorem inhabits_of_matching (host : Host) (hs : Sized f) (h : op.matching = readOp order f)
    (hlen : (op.appended host).length < 2 ^ 63) : Inhabits f (datumValue op.datum) := by
  have hwidth := length_appended_of_matching hlen h
  unfold Sized at hs
  unfold readOp at h
  cases htype : f.type with
  | bitfield =>
    simp only [htype] at h
    exact inhabits_container htype h
  | string =>
    simp only [htype] at h hs
    have hw : wireWidth f = (f.stringSize.getD 0).toNat := by simp only [wireWidth, htype]
    cases op <;> simp only [WriteOp.matching, reduceCtorEq] at h
    exact .string htype hwidth (ne_nil_of_width hwidth hw hs)
  | bytes =>
    simp only [htype] at h hs
    have hw : wireWidth f = (f.arraySize.getD 0).toNat := by simp only [wireWidth, htype]
    cases op <;> simp only [WriteOp.matching, reduceCtorEq] at h
    exact .bytes htype hwidth (ne_nil_of_width hwidth hw hs)
  | int8 =>
    simp only [htype] at h
    cases op <;> cases h
    have hw : wireWidth f = 1 := by simp only [wireWidth, htype]
    exact .of_int (by rw [htype]; rfl) hw (Int8.toInt_toInt64 _) (Int8.le_toInt _) (Int8.toInt_lt _)
  | int16 =>
    simp only [htype] at h
    cases op <;> cases h
    have hw : wireWidth f = 2 := by simp only [wireWidth, htype]
    exact .of_int (by rw [htype]; rfl) hw (Int16.toInt_toInt64 _) (Int16.le_toInt _)
      (Int16.toInt_lt _)
  | int32 =>
    simp only [htype] at h
    cases op <;> cases h
    have hw : wireWidth f = 4 := by simp only [wireWidth, htype]
    exact .of_int (by rw [htype]; rfl) hw (Int32.toInt_toInt64 _) (Int32.le_toInt _)
      (Int32.toInt_lt _)
  | int64 =>
    simp only [htype] at h
    cases op <;> cases h
    have hw : wireWidth f = 8 := by simp only [wireWidth, htype]
    exact .of_int (by rw [htype]; rfl) hw rfl (Int64.le_toInt _) (Int64.toInt_lt _)
  | uint8 =>
    simp only [htype] at h
    cases op <;> cases h
    have hw : wireWidth f = 1 := by simp only [wireWidth, htype]
    exact .of_nat (.inl (by rw [htype]; rfl)) hw (UInt8.toNat_toUInt64 _) (UInt8.toNat_lt _)
  | uint16 =>
    simp only [htype] at h
    cases op <;> cases h
    have hw : wireWidth f = 2 := by simp only [wireWidth, htype]
    exact .of_nat (.inl (by rw [htype]; rfl)) hw (UInt16.toNat_toUInt64 _) (UInt16.toNat_lt _)
  | uint32 =>
    simp only [htype] at h
    cases op <;> cases h
    have hw : wireWidth f = 4 := by simp only [wireWidth, htype]
    exact .of_nat (.inl (by rw [htype]; rfl)) hw (UInt32.toNat_toUInt64 _) (UInt32.toNat_lt _)
  | uint64 =>
    simp only [htype] at h
    cases op <;> cases h
    have hw : wireWidth f = 8 := by simp only [wireWidth, htype]
    exact .of_nat (.inl (by rw [htype]; rfl)) hw rfl (UInt64.toNat_lt _)
  | float32 =>
    simp only [htype] at h
    cases op <;> cases h
    exact .float32 htype
  | float64 =>
    simp only [htype] at h
    cases op <;> cases h
    exact .float64 htype

theorem toUInt64_toUInt8 {n : UInt64} (h : n.toNat < 2 ^ 8) : n.toUInt8.toUInt64 = n := by
  apply UInt64.toNat_inj.mp
  rw [UInt8.toNat_toUInt64, UInt64.toNat_toUInt8, Nat.mod_eq_of_lt h]

theorem toUInt64_toUInt16 {n : UInt64} (h : n.toNat < 2 ^ 16) : n.toUInt16.toUInt64 = n := by
  apply UInt64.toNat_inj.mp
  rw [UInt16.toNat_toUInt64, UInt64.toNat_toUInt16, Nat.mod_eq_of_lt h]

theorem toUInt64_toUInt32 {n : UInt64} (h : n.toNat < 2 ^ 32) : n.toUInt32.toUInt64 = n := by
  apply UInt64.toNat_inj.mp
  rw [UInt32.toNat_toUInt64, UInt64.toNat_toUInt32, Nat.mod_eq_of_lt h]

theorem toInt64_toInt8 {n : Int64} (hlo : -2 ^ 7 ≤ n.toInt) (hhi : n.toInt < 2 ^ 7) :
    n.toInt8.toInt64 = n := by
  apply Int64.toInt_inj.mp
  rw [Int8.toInt_toInt64, Int64.toInt_toInt8]
  exact Int.bmod_eq_of_le hlo hhi

theorem toInt64_toInt16 {n : Int64} (hlo : -2 ^ 15 ≤ n.toInt) (hhi : n.toInt < 2 ^ 15) :
    n.toInt16.toInt64 = n := by
  apply Int64.toInt_inj.mp
  rw [Int16.toInt_toInt64, Int64.toInt_toInt16]
  exact Int.bmod_eq_of_le hlo hhi

theorem toInt64_toInt32 {n : Int64} (hlo : -2 ^ 31 ≤ n.toInt) (hhi : n.toInt < 2 ^ 31) :
    n.toInt32.toInt64 = n := by
  apply Int64.toInt_inj.mp
  rw [Int32.toInt_toInt64, Int64.toInt_toInt32]
  exact Int.bmod_eq_of_le hlo hhi

theorem size_ne_zero {bs : List UInt8} {size : UInt64} (hlen : bs.length = wireWidth f)
    (hw : wireWidth f = size.toNat) (hne : bs ≠ []) : size ≠ 0 := by
  rintro rfl
  exact hne (List.length_eq_zero_iff.mp (hlen.trans hw))

theorem matching_container (htype : f.type = .bitfield) (order : ByteOrder) {n : UInt64}
    (h : n.toNat < 2 ^ (8 * wireWidth f)) : ∃ op : WriteOp,
      op.matching = containerOp (f.bitCount.getD 8) order ∧ datumValue op.datum = .uint64 n := by
  have hw : wireWidth f = containerWidth (f.bitCount.getD 8) := by simp only [wireWidth, htype]
  rw [hw] at h
  unfold containerWidth at h
  unfold containerOp
  split_ifs at h ⊢
  · exact ⟨.uint8 n.toUInt8, rfl, congrArg Value.uint64 (toUInt64_toUInt8 h)⟩
  · exact ⟨.scalar .uint16 n.toUInt16 order, rfl, congrArg Value.uint64 (toUInt64_toUInt16 h)⟩
  · exact ⟨.scalar .uint32 n.toUInt32 order, rfl, congrArg Value.uint64 (toUInt64_toUInt32 h)⟩
  · exact ⟨.scalar .uint64 n order, rfl, rfl⟩

theorem matching_signed (htype : isSigned f.type = true) (order : ByteOrder) {n : Int64}
    (hlo : -2 ^ (8 * wireWidth f - 1) ≤ n.toInt) (hhi : n.toInt < 2 ^ (8 * wireWidth f - 1)) :
    ∃ op : WriteOp, op.matching = readOp order f ∧ datumValue op.datum = .int64 n := by
  unfold wireWidth at hlo hhi
  unfold readOp
  cases hf : f.type with
  | int8 =>
    simp only [hf] at hlo hhi
    exact ⟨.int8 n.toInt8, rfl, congrArg Value.int64 (toInt64_toInt8 hlo hhi)⟩
  | int16 =>
    simp only [hf] at hlo hhi
    exact ⟨.scalar .int16 n.toInt16 order, rfl, congrArg Value.int64 (toInt64_toInt16 hlo hhi)⟩
  | int32 =>
    simp only [hf] at hlo hhi
    exact ⟨.scalar .int32 n.toInt32 order, rfl, congrArg Value.int64 (toInt64_toInt32 hlo hhi)⟩
  | int64 => exact ⟨.scalar .int64 n order, rfl, rfl⟩
  | _ => simp [hf, isSigned] at htype

theorem matching_unsigned (htype : isUnsigned f.type = true) (order : ByteOrder) {n : UInt64}
    (hhi : n.toNat < 2 ^ (8 * wireWidth f)) :
    ∃ op : WriteOp, op.matching = readOp order f ∧ datumValue op.datum = .uint64 n := by
  unfold wireWidth at hhi
  unfold readOp
  cases hf : f.type with
  | uint8 =>
    simp only [hf] at hhi
    exact ⟨.uint8 n.toUInt8, rfl, congrArg Value.uint64 (toUInt64_toUInt8 hhi)⟩
  | uint16 =>
    simp only [hf] at hhi
    exact ⟨.scalar .uint16 n.toUInt16 order, rfl, congrArg Value.uint64 (toUInt64_toUInt16 hhi)⟩
  | uint32 =>
    simp only [hf] at hhi
    exact ⟨.scalar .uint32 n.toUInt32 order, rfl, congrArg Value.uint64 (toUInt64_toUInt32 hhi)⟩
  | uint64 => exact ⟨.scalar .uint64 n order, rfl, rfl⟩
  | _ => simp [hf, isUnsigned] at htype

theorem exists_matching (order : ByteOrder) (h : Inhabits f v) : Sized f ∧ ∃ op : WriteOp,
    op.matching = readOp order f ∧ datumValue op.datum = v := by
  unfold Sized
  cases h with
  | signed htype hlo hhi =>
    refine ⟨?_, matching_signed htype order hlo hhi⟩
    split <;> simp_all [isSigned]
  | unsigned htype hhi =>
    refine ⟨?_, matching_unsigned htype order hhi⟩
    split <;> simp_all [isUnsigned]
  | bitfield htype hhi =>
    simp only [readOp, htype, true_and]
    exact matching_container htype order hhi
  | @float32 bits htype =>
    simp only [readOp, htype, true_and]
    exact ⟨.scalar .float32 bits order, rfl, rfl⟩
  | @float64 bits htype =>
    simp only [readOp, htype, true_and]
    exact ⟨.scalar .float64 bits order, rfl, rfl⟩
  | @string str htype hlen hne =>
    have hw : wireWidth f = (f.stringSize.getD 0).toNat := by simp only [wireWidth, htype]
    have hsize := size_ne_zero hlen hw hne
    simp only [readOp, htype]
    refine ⟨hsize, .string str (f.stringSize.getD 0), by simp [WriteOp.matching, hsize], ?_⟩
    simp [WriteOp.datum, datumValue, fitted, hsize, hlen, ← hw]
  | @bytes data htype hlen hne =>
    have hw : wireWidth f = (f.arraySize.getD 0).toNat := by simp only [wireWidth, htype]
    simp only [readOp, htype]
    refine ⟨size_ne_zero hlen hw hne, .bytes data, ?_, rfl⟩
    rw [WriteOp.matching, hlen, hw, UInt64.ofNat_toNat]

theorem length_appended_of_inhabits (host : Host) (h : op.matching = readOp order f)
    (hv : Inhabits f (datumValue op.datum)) : (op.appended host).length = wireWidth f := by
  have hcount := count_readOp order f
  rw [← h] at hcount
  cases op with
  | int8 v => exact hcount
  | uint8 v => exact hcount
  | scalar s v order => rwa [WriteOp.appended, Host.length_mirror, Scalar.wire, length_wireBytes]
  | bytes data =>
    cases hv with
    | bytes htype hlen hne => exact hlen
  | string str fixedSize =>
    cases hv with
    | string htype hlen hne => exact hlen

def Admits (host : Host) (d : Decoder) (f : Field) (v : Value) : Prop :=
  Inhabits f v ∧ (d.options.stopOnError = true → violation d f (present host d f v) = none)

def presented (host : Host) (d : Decoder) (id : UInt32) (p : Packet) (vs : List Value) :
    DecodedPacket :=
  .filled id p.name (List.zipWith (present host d) p.fields vs)

def totalWidth (fs : List Field) : Nat := (fs.map wireWidth).sum

theorem admits_of_carries (h : List.Forall₂ (Carries host d order) fs ops)
    (hlen : (writeAll host ops {}).data.length < 2 ^ 63) :
    List.Forall₂ (Admits host d) fs (ops.map fun op => datumValue op.datum) ∧
      (writeAll host ops {}).data.length = totalWidth fs := by
  induction h with
  | nil => exact ⟨.nil, rfl⟩
  | @cons f op fs ops hop _ ih =>
    rw [data_writeAll_cons, List.length_append] at hlen ⊢
    obtain ⟨hfs, htotal⟩ := ih (by omega)
    have hv := inhabits_of_matching host hop.sized hop.matching (by omega)
    have hwidth := length_appended_of_inhabits host hop.matching hv
    exact ⟨.cons ⟨hv, hop.admitted⟩ hfs, by rw [hwidth, htotal]; rfl⟩

theorem carries_of_admits {vs : List Value} (h : List.Forall₂ (Admits host d) fs vs)
    (order : ByteOrder) : ∃ ops, List.Forall₂ (Carries host d order) fs ops ∧
      ops.map (fun op => datumValue op.datum) = vs ∧
      (writeAll host ops {}).data.length = totalWidth fs := by
  induction h with
  | nil => exact ⟨[], .nil, rfl, rfl⟩
  | @cons f v fs vs hv _ ih =>
    obtain ⟨ops, hops, hvs, htotal⟩ := ih
    obtain ⟨hs, op, hmatching, rfl⟩ := exists_matching order hv.1
    refine ⟨op :: ops, .cons ⟨hs, hmatching, hv.2⟩ hops, by rw [List.map_cons, hvs], ?_⟩
    rw [data_writeAll_cons, List.length_append, htotal,
      length_appended_of_inhabits host hmatching hv.1]
    rfl

theorem decodeFields_range (host : Host) (order : ByteOrder) (hstop : d.options.stopOnError = true)
    (fs : List Field) (result packet : DecodedPacket) :
    (∃ r r', r.Valid ∧ decodeFields host d order fs result r = (.ok packet, r')) ↔
      totalWidth fs < 2 ^ 63 ∧ ∃ vs, List.Forall₂ (Admits host d) fs vs ∧
        packet = (List.zipWith (present host d) fs vs).foldl DecodedPacket.addField result := by
  have hsent : ∀ ops : List WriteOp, List.zipWith (sent host d) fs ops =
      List.zipWith (present host d) fs (ops.map fun op => datumValue op.datum) := by
    intro ops
    rw [List.zipWith_map_right]
    rfl
  constructor
  · rintro ⟨r, r', hr, h⟩
    obtain ⟨ops, hops, hdata, rfl, -⟩ := (decodeFields_iff_written hstop hr).mp h
    have hlen := ((prefix_drop_iff hr).mp hdata).1
    have hsize := hr.size_lt
    obtain ⟨hvs, htotal⟩ := admits_of_carries hops (by omega)
    exact ⟨by omega, _, hvs, by rw [hsent]⟩
  · rintro ⟨hwidth, vs, hvs, rfl⟩
    obtain ⟨ops, hops, rfl, htotal⟩ := carries_of_admits hvs order
    have hr : (ByteBufferReader.mk (writeAll host ops {}).data 0).Valid := .mk_zero (by omega)
    refine ⟨_, _, hr, (decodeFields_iff_written hstop hr).mpr ⟨ops, hops, ?_, ?_, rfl⟩⟩
    · exact List.prefix_rfl
    · rw [hsent]

/-- Strict decoding gives the packets of admitted values, and all of them that
fit into a buffer. -/
theorem decode_range (host : Host) (hstop : d.options.stopOnError = true) {id : UInt32} {p : Packet}
    (hid : d.schema.findPacketById id = some p) (packet : DecodedPacket) :
    (∃ r r', r.Valid ∧ decode host d id r = (.ok packet, r')) ↔
      totalWidth p.fields < 2 ^ 63 ∧
        ∃ vs, List.Forall₂ (Admits host d) p.fields vs ∧ packet = presented host d id p vs := by
  simp only [decode_of_find hid]
  exact decodeFields_range host d.schema.byteOrder hstop p.fields _ packet

theorem decode_range_survey : ∃ r r', r.Valid ∧ decode .x86 survey 1 r = (.ok surveyed, r') := by
  have hvalues : List.Forall₂ (Admits .x86 survey) surveyPacket.fields
      [.uint64 7, .int64 0x0201, .uint64 8, .string [72, 105]] := by
    refine .cons ⟨.unsigned rfl (by decide), fun _ => rfl⟩ ?_
    refine .cons ⟨.signed rfl (by decide) (by decide), fun _ => rfl⟩ ?_
    refine .cons ⟨.bitfield rfl (by decide), fun _ => rfl⟩ ?_
    exact .cons ⟨.string rfl rfl (List.cons_ne_nil _ _), fun _ => rfl⟩ .nil
  exact (decode_range .x86 rfl find_survey surveyed).mpr ⟨by decide, _, hvalues, rfl⟩

def Reads (host : Host) (d : Decoder) (f : Field) (result : Option DecodedField) : Prop :=
  ∀ field, result = some field → ∃ v, Inhabits f v ∧ field = present host d f v

theorem decodeField_cases (host : Host) (d : Decoder) (order : ByteOrder) (f : Field)
    (hr : r.Valid) :
    (∃ message, decodeField host d f order r = (.error message, r)) ∨
      ∃ v r', Inhabits f v ∧ r'.Valid ∧
        decodeField host d f order r = (.ok (present host d f v), r') := by
  cases hfault : fault order f r with
  | some message => exact .inl ⟨message, decodeField_of_fault hfault⟩
  | none =>
    obtain ⟨hs, hfit, datum, hrun⟩ := run_of_no_fault host hr hfault
    obtain ⟨op, hmatching, hop, -, rfl, -⟩ := (run_iff_written hr hs).mp hrun
    have hsize := hr.size_lt
    have hv := inhabits_of_matching host hs hmatching (by omega)
    exact .inr ⟨_, _, hv, hr.at hfit, decodeField_of_run d hs hrun⟩

theorem taken_attempt (f : Field) (r : ByteBufferReader) :
    taken d (f, (decodeRaw host f order r).1) = (decodeField host d f order r).1.toOption := by
  rw [decodeField_eq]
  rfl

theorem reads_attempts (host : Host) (d : Decoder) (order : ByteOrder) (fs : List Field)
    (hr : r.Valid) :
    List.Forall₂ (Reads host d) fs ((attempts host order fs r).1.map (taken d)) := by
  induction fs generalizing r with
  | nil => exact .nil
  | cons f fs ih =>
    have hreader : (decodeRaw host f order r).2 = (decodeField host d f order r).2 := by
      rw [decodeField_eq]
    simp only [attempts, hreader, List.map_cons, taken_attempt]
    rcases decodeField_cases host d order f hr with ⟨message, h⟩ | ⟨v, r', hv, hr', h⟩
    · simp only [h, Except.toOption]
      refine .cons (fun field hfield => ?_) (ih hr)
      cases hfield
    · simp only [h, Except.toOption]
      refine .cons (fun field hfield => ?_) (ih hr')
      cases hfield
      exact ⟨v, hv, rfl⟩

theorem reads_of_decodeFields {result packet : DecodedPacket} {r' : ByteBufferReader} (hr : r.Valid)
    (h : decodeFields host d order fs result r = (.ok packet, r')) :
    ∃ results, packet.fields = result.fields ++ results.reduceOption ∧
      List.Forall₂ (Reads host d) fs results := by
  refine ⟨(attempts host order fs r).1.map (taken d), ?_, reads_attempts host d order fs hr⟩
  rw [packet_of_decodeFields h, DecodedPacket.fields_foldl_addField, List.reduceOption,
    List.filterMap_map]
  rfl

theorem isSome_as {T : Type} (t : Requested T) (field : DecodedField) :
    (field.as t).isSome ↔
      (t.held field.value).isSome ∨ t.casts.isSome ∧ field.value.numeric.isSome := by
  unfold DecodedField.as DecodedField.value
  generalize (if field.hasScaling then field.scaledValue else field.rawValue) = v
  dsimp only
  generalize t.held v = held
  generalize t.casts = casts
  cases held <;> cases casts <;> cases v <;> simp [Value.numeric]

theorem isSome_numeric_shown (d : Decoder) (f : Field) (v : Value) :
    (shown d f v).numeric.isSome = v.numeric.isSome := by
  unfold shown
  split <;> rfl

theorem isSome_numeric_present (host : Host) (d : Decoder) (h : Inhabits f v) :
    (present host d f v).value.numeric.isSome = true ↔
      isNumeric f.type = true ∨ f.type = .bitfield := by
  rw [value_present, isSome_numeric_shown]
  cases h with
  | signed htype | unsigned htype => simp [Value.numeric, isNumeric, isInteger, htype]
  | bitfield htype | float32 htype | float64 htype | string htype | bytes htype =>
    rw [htype]
    simp [Value.numeric, isNumeric, isInteger, isSigned, isUnsigned, isFloat]

theorem held_string_shown (d : Decoder) (f : Field) (v : Value) :
    Requested.string.held (shown d f v) = Requested.string.held v := by
  unfold shown
  split <;> rfl

theorem isSome_string_present (host : Host) (d : Decoder) (h : Inhabits f v) :
    (Requested.string.held (present host d f v).value).isSome = true ↔ f.type = .string := by
  rw [value_present, held_string_shown]
  cases h with
  | signed htype | unsigned htype =>
    simp only [Requested.string, Option.isSome_none, Bool.false_eq_true, false_iff]
    intro hstring
    simp [hstring, isSigned, isUnsigned] at htype
  | bitfield htype | float32 htype | float64 htype | string htype | bytes htype =>
    rw [htype]
    simp [Requested.string]

/-- The types that numbers can be asked of. -/
def Counted (type : DataType) : Prop := isNumeric type = true ∨ type = .bitfield

structure ForNumbers {T : Type} (t : Requested T) : Prop where
  casts : t.casts.isSome = true
  held : ∀ v, (t.held v).isSome = true → v.numeric.isSome = true

theorem forNumbers_int64 (outside : Double → Int64) : ForNumbers (.int64 outside) where
  casts := rfl
  held v hv := by cases v <;> simp_all [Requested.int64, Value.numeric]

theorem forNumbers_uint64 (outside : Double → UInt64) : ForNumbers (.uint64 outside) where
  casts := rfl
  held v hv := by cases v <;> simp_all [Requested.uint64, Value.numeric]

theorem forNumbers_double : ForNumbers .double where
  casts := rfl
  held v hv := by cases v <;> simp_all [Requested.double, Value.numeric]

theorem isSome_number {T : Type} {t : Requested T} (ht : ForNumbers t) (h : Inhabits f v) :
    ((present host d f v).as t).isSome = true ↔ Counted f.type := by
  rw [isSome_as, ht.casts, Counted, ← isSome_numeric_present host d h]
  simp only [true_and, or_iff_right_iff_imp]
  exact ht.held _

theorem isSome_string (h : Inhabits f v) :
    ((present host d f v).as .string).isSome = true ↔ f.type = .string := by
  have hcasts : Requested.string.casts.isSome = false := rfl
  rw [isSome_as, hcasts, ← isSome_string_present host d h]
  simp

theorem isSome_get {T : Type} {t : Requested T} {q : DataType → Prop} {packet : DecodedPacket}
    (hq : ∀ field ∈ packet.fields, (field.as t).isSome = true ↔ q field.type) (name : String) :
    (packet.get t name).isSome = true ↔ ∃ field, packet.field name = some field ∧ q field.type := by
  rw [DecodedPacket.get]
  cases hfield : packet.field name with
  | none => simp
  | some field =>
    obtain ⟨i, hi, -⟩ := (packet.field_eq_some_iff name field).mp hfield
    simp [hq field (List.mem_of_getElem? hi.1)]

/-- A decoded packet holds what its definitions allow, and the type of a field
alone says what can be asked of it. -/
theorem decode_typed (host : Host) (d : Decoder) (id : UInt32) (hr : r.Valid)
    {packet : DecodedPacket} {r' : ByteBufferReader} (h : decode host d id r = (.ok packet, r')) :
    ∃ p results, d.schema.findPacketById id = some p ∧ packet.fields = results.reduceOption ∧
      List.Forall₂ (Reads host d) p.fields results ∧
      (∀ (T : Type) (t : Requested T), ForNumbers t → ∀ name, (packet.get t name).isSome = true ↔
        ∃ field, packet.field name = some field ∧ Counted field.type) ∧
      ∀ name, (packet.get .string name).isSome = true ↔
        ∃ field, packet.field name = some field ∧ field.type = .string := by
  obtain ⟨p, hid⟩ := find_of_decode h
  rw [decode_of_find hid] at h
  obtain ⟨results, hfields, hresults⟩ := reads_of_decodeFields hr h
  rw [List.nil_append] at hfields
  have hall : ∀ field ∈ packet.fields, ∃ f v, Inhabits f v ∧ field = present host d f v := by
    intro field hfield
    rw [hfields, List.reduceOption_mem_iff] at hfield
    obtain ⟨k, hk, hget⟩ := List.mem_iff_getElem.mp hfield
    have hlt : k < p.fields.length := by rwa [hresults.length_eq]
    obtain ⟨v, hv⟩ := hresults.get hlt hk field hget
    exact ⟨_, v, hv⟩
  refine ⟨p, results, hid, hfields, hresults, fun T t ht => isSome_get ?_,
    isSome_get (q := (· = .string)) ?_⟩
  · intro field hfield
    obtain ⟨f, v, hv, rfl⟩ := hall field hfield
    exact isSome_number ht hv
  · intro field hfield
    obtain ⟨f, v, hv, rfl⟩ := hall field hfield
    exact isSome_string hv

theorem decode_typed_probe :
    decode .x86 probe 1 ⟨[7, 8], 0⟩ = (.ok (probePacket 7), ⟨[7, 8], 1⟩) ∧
      ((probePacket 7).get (.int64 fun _ => 0) "level").isSome = true ∧
      ((probePacket 7).get (.uint64 fun _ => 0) "level").isSome = true ∧
      ((probePacket 7).get .double "level").isSome = true ∧
      (probePacket 7).get .string "level" = none := by
  have hr : (ByteBufferReader.mk [7, 8] 0).Valid := .mk_zero (by decide)
  have h : decode .x86 probe 1 ⟨[7, 8], 0⟩ = (.ok (probePacket 7), ⟨[7, 8], 1⟩) := rfl
  obtain ⟨p, results, -, -, -, hnumber, hstring⟩ := decode_typed .x86 probe 1 hr h
  have hlevel {T : Type} (t : Requested T) (ht : ForNumbers t) :
      ((probePacket 7).get t "level").isSome = true :=
    (hnumber T t ht "level").mpr ⟨_, rfl, .inl rfl⟩
  refine ⟨h, hlevel _ (forNumbers_int64 _), hlevel _ (forNumbers_uint64 _),
    hlevel _ forNumbers_double, ?_⟩
  rw [← Option.not_isSome_iff_eq_none, hstring]
  rintro ⟨field, hfield, htype⟩
  cases hfield
  cases htype

end IONet.Codec
