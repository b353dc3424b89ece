import IONet.Codec.WireLayout

/-! What the decoding options change in a run of the loop, and what they leave
alone.  Nothing here asks the reader to be in bounds. -/

namespace IONet.Codec

open IONet.Core Decoder

abbrev Attempt := Field × Except String (Value × Option DecodedBitfield)

/-- Every field in turn, read or not; the options have no part in it. -/
def attempts (host : Host) (order : ByteOrder) :
    List Field → ByteBufferReader → List Attempt × ByteBufferReader
  | [], reader => ([], reader)
  | f :: fs, reader =>
    let rest := attempts host order fs (decodeRaw host f order reader).2
    ((f, (decodeRaw host f order reader).1) :: rest.1, rest.2)

def taken (d : Decoder) (a : Attempt) : Option DecodedField :=
  (a.2.map (d.decodedField a.1)).toOption

variable {host : Host} {order : ByteOrder} {d : Decoder}

@[simp] theorem taken_error (f : Field) (message : String) : taken d (f, .error message) = none :=
  rfl

@[simp] theorem taken_ok (f : Field) (raw : Value × Option DecodedBitfield) :
    taken d (f, .ok raw) = some (d.decodedField f raw) := rfl

theorem decodeField_eq (f : Field) (r : ByteBufferReader) :
    decodeField host d f order r =
      ((decodeRaw host f order r).1.map (d.decodedField f), (decodeRaw host f order r).2) := by
  rw [decodeField, ReadM.map]
  rcases decodeRaw host f order r with ⟨_ | raw, r'⟩ <;> rfl

theorem fst_attempts (fs : List Field) (r : ByteBufferReader) :
    (attempts host order fs r).1.map Prod.fst = fs := by
  induction fs generalizing r with
  | nil => rfl
  | cons f fs ih => simp [attempts, ih]

theorem decodeFields_eq_attempts (hstop : d.options.stopOnError = false) (fs : List Field)
    (result : DecodedPacket) (r : ByteBufferReader) :
    decodeFields host d order fs result r =
      (.ok (((attempts host order fs r).1.filterMap (taken d)).foldl DecodedPacket.addField result),
        (attempts host order fs r).2) := by
  induction fs generalizing result r with
  | nil => rfl
  | cons f fs ih =>
    simp only [decodeFields, decodeField_eq, attempts]
    cases hraw : (decodeRaw host f order r).1 with
    | error message =>
      rw [List.filterMap_cons_none (taken_error f message)]
      simp [Except.map, hstop, ih]
    | ok raw =>
      simp only [Except.map, hstop, List.filterMap_cons, taken_ok, List.foldl_cons]
      split <;> simp [ih]

theorem decodeFields_eq_ok_iff (hstop : d.options.stopOnError = true) (fs : List Field)
    (result packet : DecodedPacket) (r r' : ByteBufferReader) :
    decodeFields host d order fs result r = (.ok packet, r') ↔
      (∀ a ∈ (attempts host order fs r).1,
        ∃ field, taken d a = some field ∧ passes d a.1 field = true) ∧
      packet = ((attempts host order fs r).1.filterMap (taken d)).foldl
        DecodedPacket.addField result ∧
      r' = (attempts host order fs r).2 := by
  induction fs generalizing result r with
  | nil =>
    have hnil : packet = result ∧ r' = r ↔ result = packet ∧ r = r' := by
      rw [eq_comm, eq_comm (a := r')]
    simp [decodeFields, attempts, hnil]
  | cons f fs ih =>
    simp only [decodeFields, decodeField_eq, attempts]
    cases hraw : (decodeRaw host f order r).1 with
    | error message => simp [Except.map, hstop]
    | ok raw =>
      have hcheck := check_eq_ok_iff (d := d) f (d.decodedField f raw)
      simp only [Except.map, hstop, if_true, List.forall_mem_cons, taken_ok, Option.some.injEq,
        exists_eq_left', List.filterMap_cons, List.foldl_cons]
      split
      · rename_i constraintError hfail
        have hpass : ¬passes d f (d.decodedField f raw) = true := by
          rw [← hcheck, hfail]
          simp
        simp [hpass]
      · rename_i hok
        rw [ih, and_iff_right (hcheck.mp hok)]

theorem packet_of_decodeFields {fs : List Field} {result packet : DecodedPacket}
    {r r' : ByteBufferReader} (h : decodeFields host d order fs result r = (.ok packet, r')) :
    packet =
      ((attempts host order fs r).1.filterMap (taken d)).foldl DecodedPacket.addField result := by
  cases hstop : d.options.stopOnError with
  | true => exact ((decodeFields_eq_ok_iff hstop fs result packet r r').mp h).2.1
  | false =>
    rw [decodeFields_eq_attempts hstop] at h
    cases h
    rfl

structure SameButScaled (field field' : DecodedField) : Prop where
  name : field.name = field'.name
  type : field.type = field'.type
  unit : field.unit = field'.unit
  rawValue : field.rawValue = field'.rawValue
  bitfield : field.bitfield = field'.bitfield

theorem sameButScaled_taken (d d' : Decoder) (as : List Attempt) :
    List.Forall₂ SameButScaled (as.filterMap (taken d)) (as.filterMap (taken d')) := by
  induction as with
  | nil => exact .nil
  | cons a as ih =>
    obtain ⟨f, _ | raw⟩ := a
    · rwa [List.filterMap_cons_none (taken_error f _), List.filterMap_cons_none (taken_error f _)]
    · exact .cons ⟨rfl, rfl, rfl, rfl, rfl⟩ ih

theorem names_taken (d : Decoder) (as : List Attempt) :
    ((as.filterMap (taken d)).map DecodedField.name).Sublist
      ((as.map Prod.fst).map Field.name) := by
  induction as with
  | nil => exact .slnil
  | cons a as ih =>
    obtain ⟨f, _ | raw⟩ := a
    · rw [List.filterMap_cons_none (taken_error f _)]
      exact ih.cons f.name
    · exact ih.cons_cons f.name

theorem passes_of_not_validate (hvalidate : d.options.validateConstraints = false) (f : Field)
    (field : DecodedField) : passes d f field = true := by simp [passes, hvalidate]

variable {s : Schema} {id : UInt32} {p : Packet} {r : ByteBufferReader}

theorem decode_lenient (host : Host) (hid : d.schema.findPacketById id = some p)
    (hstop : d.options.stopOnError = false) (r : ByteBufferReader) :
    decode host d id r =
      (.ok (((attempts host d.schema.byteOrder p.fields r).1.filterMap (taken d)).foldl
        DecodedPacket.addField { packetId := id, packetName := p.name }),
      (attempts host d.schema.byteOrder p.fields r).2) := by
  simp only [decode, hid, decodeFields_eq_attempts hstop]

theorem decode_strict (hid : d.schema.findPacketById id = some p)
    (hstop : d.options.stopOnError = true) {packet : DecodedPacket} {r' : ByteBufferReader} :
    decode host d id r = (.ok packet, r') ↔
      (∀ a ∈ (attempts host d.schema.byteOrder p.fields r).1,
        ∃ field, taken d a = some field ∧ passes d a.1 field = true) ∧
      packet = ((attempts host d.schema.byteOrder p.fields r).1.filterMap (taken d)).foldl
        DecodedPacket.addField { packetId := id, packetName := p.name } ∧
      r' = (attempts host d.schema.byteOrder p.fields r).2 := by
  simp only [decode, hid, decodeFields_eq_ok_iff hstop]

theorem find_of_decode {packet : DecodedPacket} {r' : ByteBufferReader}
    (h : decode host d id r = (.ok packet, r')) : ∃ p, d.schema.findPacketById id = some p := by
  cases hid : d.schema.findPacketById id with
  | none => simp [decode, hid] at h
  | some p => exact ⟨p, rfl⟩

theorem decode_strict_imp {o : DecodeOptions} (hstop : o.stopOnError = true)
    {packet : DecodedPacket} {r' : ByteBufferReader}
    (h : decode host ⟨s, o⟩ id r = (.ok packet, r')) :
    decode host ⟨s, { o with stopOnError := false }⟩ id r = (.ok packet, r') ∧
    decode host ⟨s, { o with validateConstraints := false }⟩ id r = (.ok packet, r') := by
  obtain ⟨p, hid⟩ := find_of_decode h
  obtain ⟨hall, rfl, rfl⟩ := (decode_strict hid hstop).mp h
  constructor
  · exact decode_lenient host (d := ⟨s, { o with stopOnError := false }⟩) hid rfl r
  · refine (decode_strict (d := ⟨s, { o with validateConstraints := false }⟩) hid hstop).mpr
      ⟨fun a ha => ?_, rfl, rfl⟩
    obtain ⟨field, hfield, -⟩ := hall a ha
    exact ⟨field, hfield, passes_of_not_validate rfl a.1 field⟩

theorem decode_strict_agree {o o' : DecodeOptions} (hstop : o.stopOnError = true)
    (hstop' : o'.stopOnError = true) {packet packet' : DecodedPacket} {q q' : ByteBufferReader}
    (h : decode host ⟨s, o⟩ id r = (.ok packet, q))
    (h' : decode host ⟨s, o'⟩ id r = (.ok packet', q')) :
    List.Forall₂ SameButScaled packet.fields packet'.fields ∧ q = q' := by
  obtain ⟨p, hid⟩ := find_of_decode h
  obtain ⟨-, rfl, rfl⟩ := (decode_strict hid hstop).mp h
  obtain ⟨-, rfl, rfl⟩ := (decode_strict (d := ⟨s, o'⟩) hid hstop').mp h'
  simp only [DecodedPacket.fields_foldl_addField, List.nil_append, and_true]
  exact sameButScaled_taken _ _ _

theorem decode_lenient_names (hid : d.schema.findPacketById id = some p)
    (hstop : d.options.stopOnError = false) (r : ByteBufferReader) :
    ∃ packet r', decode host d id r = (.ok packet, r') ∧
      (packet.fields.map DecodedField.name).Sublist (p.fields.map Field.name) := by
  refine ⟨_, _, decode_lenient host hid hstop r, ?_⟩
  have hnames := names_taken d (attempts host d.schema.byteOrder p.fields r).1
  rw [fst_attempts] at hnames
  rwa [DecodedPacket.fields_foldl_addField, List.nil_append]

/-- The options steer what is kept and when the loop stops, never what is read. -/
theorem decode_options (host : Host) (s : Schema) (id : UInt32) (r : ByteBufferReader) :
    (∀ o packet r', o.stopOnError = true → decode host ⟨s, o⟩ id r = (.ok packet, r') →
      decode host ⟨s, { o with stopOnError := false }⟩ id r = (.ok packet, r') ∧
      decode host ⟨s, { o with validateConstraints := false }⟩ id r = (.ok packet, r')) ∧
    (∀ o o' packet packet' q q', o.stopOnError = true → o'.stopOnError = true →
      decode host ⟨s, o⟩ id r = (.ok packet, q) → decode host ⟨s, o'⟩ id r = (.ok packet', q') →
      List.Forall₂ SameButScaled packet.fields packet'.fields ∧ q = q') ∧
    (∀ o p, o.stopOnError = false → s.findPacketById id = some p →
      ∃ packet r', decode host ⟨s, o⟩ id r = (.ok packet, r') ∧
        (packet.fields.map DecodedField.name).Sublist (p.fields.map Field.name)) :=
  ⟨fun _ _ _ hstop h => decode_strict_imp hstop h,
    fun _ _ _ _ _ _ hstop hstop' h h' => decode_strict_agree hstop hstop' h h',
    fun _ _ hstop hid => decode_lenient_names hid hstop r⟩

def cappedField : Field where
  name := "level"
  constraints := { max := some (Double.ofInt 10) }

def capped : Packet where
  id := 1
  name := "capped"
  fields := [cappedField]

def cappedSchema : Schema := ({} : Schema).addPacket capped

theorem decode_strict_capped (scaled : Bool) : ∃ packet,
    decode .x86 ⟨cappedSchema, { applyScaling := scaled }⟩ 1 ⟨[7], 0⟩ = (.ok packet, ⟨[7], 1⟩) := by
  have hid : cappedSchema.findPacketById 1 = some capped := rfl
  have hattempts : (attempts .x86 cappedSchema.byteOrder capped.fields ⟨[7], 0⟩) =
      ([(cappedField, .ok (.uint64 7, none))], ⟨[7], 1⟩) := rfl
  refine ⟨_, (decode_strict (d := ⟨cappedSchema, { applyScaling := scaled }⟩) hid rfl).mpr
    ⟨?_, rfl, rfl⟩⟩
  rw [hattempts, List.forall_mem_singleton]
  refine ⟨_, rfl, ?_⟩
  revert scaled
  decide +kernel

theorem decode_options_capped : ∃ packet raw,
    decode .x86 ⟨cappedSchema, { stopOnError := false }⟩ 1 ⟨[7], 0⟩ = (.ok packet, ⟨[7], 1⟩) ∧
      decode .x86 ⟨cappedSchema, { applyScaling := false }⟩ 1 ⟨[7], 0⟩ = (.ok raw, ⟨[7], 1⟩) ∧
      List.Forall₂ SameButScaled packet.fields raw.fields ∧
      (packet.fields.map DecodedField.name).Sublist ["level"] := by
  obtain ⟨hkept, hscaled, hlenient⟩ := decode_options .x86 cappedSchema 1 ⟨[7], 0⟩
  obtain ⟨packet, hstrict⟩ := decode_strict_capped true
  obtain ⟨raw, hraw⟩ := decode_strict_capped false
  obtain ⟨hloose, -⟩ := hkept _ packet _ rfl hstrict
  obtain ⟨same, q, hsame, hnames⟩ := hlenient { stopOnError := false } capped rfl rfl
  cases hloose.symm.trans hsame
  exact ⟨packet, raw, hloose, hraw, (hscaled _ _ packet raw _ _ rfl rfl hstrict hraw).1, hnames⟩

/-- Some field that can be read fails its own check. -/
def Violated (host : Host) (d : Decoder) (p : Packet) (r : ByteBufferReader) : Prop :=
  ∃ a ∈ (attempts host d.schema.byteOrder p.fields r).1,
    ∃ field, taken d a = some field ∧ validateConstraints field a.1 ≠ .ok ()

/-- The caller can tell the outcome from that of decoding without validation. -/
def Noticeable (host : Host) (d : Decoder) (id : UInt32) (r : ByteBufferReader) : Prop :=
  (∃ e, (decode host d id r).1 = .error e) ∨
    (decode host d id r).1 ≠
      (decode host ⟨d.schema, { d.options with validateConstraints := false }⟩ id r).1

theorem decode_lenient_validate (hid : d.schema.findPacketById id = some p)
    (hstop : d.options.stopOnError = false) (r : ByteBufferReader) :
    decode host d id r =
      decode host ⟨d.schema, { d.options with validateConstraints := false }⟩ id r := by
  have hunchecked := decode_lenient host
    (d := ⟨d.schema, { d.options with validateConstraints := false }⟩) hid hstop r
  rw [hunchecked, decode_lenient host hid hstop]
  rfl

theorem not_noticeable (hid : d.schema.findPacketById id = some p)
    (hstop : d.options.stopOnError = false) (r : ByteBufferReader) : ¬Noticeable host d id r := by
  rintro (⟨e, he⟩ | hne)
  · rw [decode_lenient host hid hstop] at he
    cases he
  · exact hne (congrArg Prod.fst (decode_lenient_validate hid hstop r))

/-- The error that the check computes is dropped, so a violation is noticed only
where there is none. -/
theorem violation_noticed_iff (host : Host) (hid : d.schema.findPacketById id = some p)
    (hstop : d.options.stopOnError = false) (r : ByteBufferReader) :
    (Violated host d p r → Noticeable host d id r) ↔ ¬Violated host d p r := by
  have hnot : ¬Noticeable host d id r := not_noticeable hid hstop r
  exact ⟨fun h hv => hnot (h hv), fun h hv => absurd hv h⟩

def cappedDecoder : Decoder where
  schema := cappedSchema
  options := { stopOnError := false }

theorem find_capped : cappedDecoder.schema.findPacketById 1 = some capped := rfl

theorem violated_capped_iff (level : UInt8) : Violated .x86 cappedDecoder capped ⟨[level], 0⟩ ↔
    validateConstraints (cappedDecoder.decodedField cappedField (.uint64 level.toUInt64, none))
      cappedField ≠ .ok () := by
  have hattempts : (attempts .x86 cappedDecoder.schema.byteOrder capped.fields ⟨[level], 0⟩).1 =
      [(cappedField, .ok (.uint64 level.toUInt64, none))] := rfl
  simp [Violated, hattempts]

theorem violation_noticed_iff_capped :
    (∃ packet r', decode .x86 cappedDecoder 1 ⟨[7], 0⟩ = (.ok packet, r')) ∧
    (Violated .x86 cappedDecoder capped ⟨[7], 0⟩ → Noticeable .x86 cappedDecoder 1 ⟨[7], 0⟩) := by
  have hiff := violation_noticed_iff .x86 find_capped rfl ⟨[7], 0⟩
  refine ⟨⟨_, _, decode_lenient .x86 find_capped rfl _⟩, hiff.mpr ?_⟩
  rw [violated_capped_iff]
  decide +kernel

theorem capped_violation_unnoticed :
    Violated .x86 cappedDecoder capped ⟨[200], 0⟩ ∧
      ¬Noticeable .x86 cappedDecoder 1 ⟨[200], 0⟩ := by
  have hviolated : Violated .x86 cappedDecoder capped ⟨[200], 0⟩ := by
    rw [violated_capped_iff]
    decide +kernel
  exact ⟨hviolated, not_noticeable find_capped rfl _⟩

end IONet.Codec
