import IONet.Codec.Refinement
import IONet.Core.WriterRuns

namespace IONet.Codec

open IONet.Core Lib.Slots Decoder

def sent (host : Host) (d : Decoder) (f : Field) (op : WriteOp) : DecodedField :=
  present host d f (datumValue op.datum)

/-- A write of what the field is read as, that the options let pass. -/
structure Carries (host : Host) (d : Decoder) (order : ByteOrder) (f : Field) (op : WriteOp) :
    Prop where
  sized : Sized f
  matching : op.matching = readOp order f
  admitted : d.options.stopOnError = true → violation d f (sent host d f op) = none

def arrived (host : Host) (d : Decoder) (id : UInt32) (p : Packet) (ops : List WriteOp) :
    DecodedPacket :=
  .filled id p.name (List.zipWith (sent host d) p.fields ops)

variable {host : Host} {d : Decoder} {order : ByteOrder} {f : Field} {fs : List Field}
  {op : WriteOp} {ops : List WriteOp} {r : ByteBufferReader}

theorem data_writeAll (host : Host) (ops : List WriteOp) :
    (writeAll host ops {}).data = ops.flatMap (WriteOp.appended host) := by
  rw [ByteBufferWriter.data, buffer_writeAll]
  rfl

theorem data_writeAll_cons (host : Host) (op : WriteOp) (ops : List WriteOp) :
    (writeAll host (op :: ops) {}).data = op.appended host ++ (writeAll host ops {}).data := by
  simp [data_writeAll]

theorem length_appended_of_matching (hlen : (op.appended host).length < 2 ^ 63)
    (h : op.matching = readOp order f) : (op.appended host).length = wireWidth f := by
  rw [← count_readOp order, ← h]
  cases op with
  | int8 v => rfl
  | uint8 v => rfl
  | scalar s v order => simp [WriteOp.appended, WriteOp.matching, ReadOp.count]
  | bytes data =>
    simp only [WriteOp.appended, WriteOp.matching, ReadOp.count] at hlen ⊢
    exact (UInt64.toNat_ofNat_of_lt' (by simp only [UInt64.size]; omega)).symm
  | string str fixedSize =>
    simp only [WriteOp.appended, WriteOp.matching, ReadOp.count] at hlen ⊢
    split_ifs with hsize
    · simp only [fitted, hsize, if_true] at hlen ⊢
      exact (UInt64.toNat_ofNat_of_lt' (by simp only [UInt64.size]; omega)).symm
    · exact length_fitted str hsize

theorem exists_scalar (host : Host) (s : Scalar) (order : ByteOrder) {bs : List UInt8}
    (hlen : bs.length = s.width) : ∃ v, host.mirror (s.wire host v order) = bs := by
  have hwidth : s.width < 2 ^ 63 := by cases s <;> decide
  have hr : (ByteBufferReader.mk bs 0).Valid := .mk_zero (by omega)
  obtain ⟨v, -, hv⟩ := s.read_eq host order hr (by simp [ByteBufferReader.size, hlen])
  have hself := window_self bs
  rw [hlen] at hself
  have hwire : (host.mirror bs).length = s.width := by rw [Host.length_mirror, hlen]
  refine ⟨v, ?_⟩
  rw [Scalar.wire, hv, hself, ← hwire, wireBytes_wireVal, Host.mirror_mirror]

theorem exists_write (host : Host) (op : ReadOp) {bs : List UInt8} (hlen : bs.length = op.count)
    (hstring : ∀ size, op = .string size → size ≠ 0) :
    ∃ w : WriteOp, w.matching = op ∧ w.appended host = bs := by
  cases op with
  | int8 =>
    obtain ⟨b, rfl⟩ := List.length_eq_one_iff.mp hlen
    exact ⟨.int8 b.toInt8, rfl, by simp [WriteOp.appended]⟩
  | uint8 =>
    obtain ⟨b, rfl⟩ := List.length_eq_one_iff.mp hlen
    exact ⟨.uint8 b, rfl, rfl⟩
  | scalar s order =>
    obtain ⟨v, hv⟩ := exists_scalar host s order hlen
    exact ⟨.scalar s v order, rfl, hv⟩
  | bytes count => exact ⟨.bytes bs, by simp [WriteOp.matching, hlen, ReadOp.count], rfl⟩
  | string size =>
    have hsize := hstring size rfl
    refine ⟨.string bs size, by simp [WriteOp.matching, hsize], ?_⟩
    simp only [ReadOp.count] at hlen
    simp [WriteOp.appended, fitted, hsize, ← hlen]

theorem stringSize_ne_zero (hs : Sized f) {size : UInt64} (h : readOp order f = .string size) :
    size ≠ 0 := by
  unfold Sized at hs
  unfold readOp at h
  cases htype : f.type with
  | string =>
    rw [htype] at hs h
    cases h
    exact hs
  | bitfield =>
    simp only [htype, containerOp] at h
    split_ifs at h
  | _ =>
    rw [htype] at h
    cases h

theorem run_iff_written (hr : r.Valid) (hs : Sized f) {datum : Datum} {r' : ByteBufferReader} :
    (readOp order f).run host r = (.ok datum, r') ↔ ∃ op : WriteOp, op.matching = readOp order f ∧
      r.pos + (op.appended host).length ≤ r.size ∧
      window r.data r.pos (op.appended host).length = op.appended host ∧ datum = op.datum ∧
      r' = { r with pos := r.pos + (op.appended host).length } := by
  constructor
  · intro h
    rcases (readOp order f).run_cases host hr with ⟨hfit, datum', hrun⟩ | ⟨what, -, hrun⟩
    · have hlen : (window r.data r.pos (readOp order f).count).length = (readOp order f).count :=
        length_window hfit
      obtain ⟨op, hmatching, happended⟩ :=
        exists_write host (readOp order f) hlen fun size => stringSize_ne_zero hs
      rw [← happended] at hlen
      rw [← hlen] at hfit happended
      have hread := run_matching host op hr hfit happended.symm
      rw [hmatching, h] at hread
      cases hread
      exact ⟨op, hmatching, hfit, happended.symm, rfl, rfl⟩
    · rw [hrun] at h
      cases h
  · rintro ⟨op, hmatching, hfit, hwindow, rfl, rfl⟩
    rw [← hmatching]
    exact run_matching host op hr hfit hwindow

theorem prefix_drop_iff (hr : r.Valid) {bs : List UInt8} :
    bs <+: r.data.drop r.pos ↔
      r.pos + bs.length ≤ r.size ∧ window r.data r.pos bs.length = bs := by
  have hpos := hr.pos_le
  rw [List.prefix_iff_eq_take, window, eq_comm, iff_and_self]
  intro h
  have hlen := congrArg List.length h
  rw [List.length_take, List.length_drop] at hlen
  simp only [ByteBufferReader.size] at hpos ⊢
  omega

theorem decodeFields_of_written (hops : List.Forall₂ (Carries host d order) fs ops) (hr : r.Valid)
    (hdata : (writeAll host ops {}).data <+: r.data.drop r.pos) (result : DecodedPacket) :
    decodeFields host d order fs result r =
      (.ok ((List.zipWith (sent host d) fs ops).foldl DecodedPacket.addField result),
        { r with pos := r.pos + (writeAll host ops {}).data.length }) := by
  induction hops generalizing result r with
  | nil => rfl
  | @cons f op fs ops hop _ ih =>
    rw [data_writeAll_cons] at hdata ⊢
    obtain ⟨hfirst, hrest⟩ := append_prefix_iff.mp hdata
    rw [List.drop_drop] at hrest
    obtain ⟨hfit, hwindow⟩ := (prefix_drop_iff hr).mp hfirst
    have hrun := (run_iff_written hr hop.sized).mpr ⟨op, hop.matching, hfit, hwindow, rfl, rfl⟩
    have hverdict : (if d.options.stopOnError then
        violation d f (present host d f (datumValue op.datum)) else none) = none := by
      split_ifs with hstop
      · exact hop.admitted hstop
      · rfl
    rw [decodeFields_cons_of_read (decodeField_of_run d hop.sized hrun), hverdict,
      List.length_append, ← Nat.add_assoc]
    exact ih (hr.at hfit) hrest (result.addField _)

theorem written_of_decodeFields (hstop : d.options.stopOnError = true) (hr : r.Valid)
    {result packet : DecodedPacket} {r' : ByteBufferReader}
    (h : decodeFields host d order fs result r = (.ok packet, r')) :
    ∃ ops, List.Forall₂ (Carries host d order) fs ops ∧
      (writeAll host ops {}).data <+: r.data.drop r.pos := by
  induction fs generalizing result r with
  | nil => exact ⟨[], .nil, List.nil_prefix⟩
  | cons f fs ih =>
    cases hfault : fault order f r with
    | some message =>
      rw [decodeFields_cons_of_fault hfault, if_pos hstop] at h
      cases h
    | none =>
      obtain ⟨hs, hle, datum, hrun⟩ := run_of_no_fault host hr hfault
      obtain ⟨op, hmatching, hfit, hwindow, rfl, hnext⟩ := (run_iff_written hr hs).mp hrun
      rw [decodeFields_cons_of_read (decodeField_of_run d hs hrun), if_pos hstop] at h
      cases hviolation : violation d f (sent host d f op) with
      | some message =>
        rw [sent] at hviolation
        rw [hviolation] at h
        cases h
      | none =>
        rw [sent] at hviolation
        rw [hviolation] at h
        obtain ⟨ops, hops, hdata⟩ := ih (hr.at hle) h
        refine ⟨op :: ops, .cons ⟨hs, hmatching, fun _ => hviolation⟩ hops, ?_⟩
        rw [data_writeAll_cons]
        refine append_prefix_iff.mpr ⟨(prefix_drop_iff hr).mpr ⟨hfit, hwindow⟩, ?_⟩
        have hpos : r.pos + wireWidth f = r.pos + (op.appended host).length :=
          congrArg ByteBufferReader.pos hnext
        rw [List.drop_drop, ← hpos]
        exact hdata

theorem decodeFields_iff_written (hstop : d.options.stopOnError = true) (hr : r.Valid)
    {result packet : DecodedPacket} {r' : ByteBufferReader} :
    decodeFields host d order fs result r = (.ok packet, r') ↔ ∃ ops,
      List.Forall₂ (Carries host d order) fs ops ∧
      (writeAll host ops {}).data <+: r.data.drop r.pos ∧
      packet = (List.zipWith (sent host d) fs ops).foldl DecodedPacket.addField result ∧
      r' = { r with pos := r.pos + (writeAll host ops {}).data.length } := by
  constructor
  · intro h
    obtain ⟨ops, hops, hdata⟩ := written_of_decodeFields hstop hr h
    rw [decodeFields_of_written hops hr hdata] at h
    cases h
    exact ⟨ops, hops, hdata, rfl, rfl⟩
  · rintro ⟨ops, hops, hdata, rfl, rfl⟩
    exact decodeFields_of_written hops hr hdata result

/-- The packets that strict decoding accepts are those the writer can write, and
it accepts them for what was written. -/
theorem decode_iff_written (host : Host) (hstop : d.options.stopOnError = true) {id : UInt32}
    {p : Packet} (hid : d.schema.findPacketById id = some p) (hr : r.Valid) (packet : DecodedPacket)
    (r' : ByteBufferReader) :
    decode host d id r = (.ok packet, r') ↔ ∃ ops,
      List.Forall₂ (Carries host d d.schema.byteOrder) p.fields ops ∧
      (writeAll host ops {}).data <+: r.data.drop r.pos ∧ packet = arrived host d id p ops ∧
      r' = { r with pos := r.pos + (writeAll host ops {}).data.length } := by
  rw [decode_of_find hid]
  exact decodeFields_iff_written hstop hr

def surveyWrites : List WriteOp :=
  [.uint8 7, .scalar .int16 (0x0201 : Int16) .big, .scalar .uint16 (8 : UInt16) .big,
    .string [72, 105] 2]

theorem decode_iff_written_survey : ∃ packet,
    decode .x86 survey 1 ⟨[7, 1, 2, 8, 0, 72, 105, 9], 0⟩ =
        (.ok packet, ⟨[7, 1, 2, 8, 0, 72, 105, 9], 7⟩) ∧
      packet = arrived .x86 survey 1 surveyPacket surveyWrites := by
  have hr : (ByteBufferReader.mk [7, 1, 2, 8, 0, 72, 105, 9] 0).Valid := .mk_zero (by decide)
  have hcarries : List.Forall₂ (Carries .x86 survey .big) surveyPacket.fields surveyWrites := by
    refine .cons ⟨by decide, rfl, fun _ => rfl⟩ (.cons ⟨by decide, rfl, fun _ => rfl⟩ ?_)
    exact .cons ⟨by decide, rfl, fun _ => rfl⟩ (.cons ⟨by decide, rfl, fun _ => rfl⟩ .nil)
  exact ⟨_, (decode_iff_written .x86 rfl find_survey hr _ _).mpr
    ⟨surveyWrites, hcarries, ⟨[9], by decide⟩, rfl, rfl⟩, rfl⟩

def Delivers (host : Host) (d : Decoder) (message : UInt32 × List WriteOp)
    (packet : DecodedPacket) :
    Prop :=
  ∃ p, d.schema.findPacketById message.1 = some p ∧
    List.Forall₂ (Carries host d d.schema.byteOrder) p.fields message.2 ∧
    packet = arrived host d message.1 p message.2

theorem decode_delivered {message : UInt32 × List WriteOp} {packet : DecodedPacket}
    (h : Delivers host d message packet) (hr : r.Valid)
    (hdata : (writeAll host message.2 {}).data <+: r.data.drop r.pos) :
    decode host d message.1 r =
      (.ok packet, { r with pos := r.pos + (writeAll host message.2 {}).data.length }) := by
  obtain ⟨p, hid, hops, rfl⟩ := h
  rw [decode_of_find hid, decodeFields_of_written hops hr hdata]
  rfl

theorem decodeEach_delivered {messages : List (UInt32 × List WriteOp)}
    {packets : List DecodedPacket}
    (h : List.Forall₂ (Delivers host d) messages packets) (hr : r.Valid)
    (hdata : (writeAll host (messages.flatMap Prod.snd) {}).data <+: r.data.drop r.pos) :
    decodeEach host d (messages.map Prod.fst) r = (.ok packets, { r with
      pos := r.pos + (writeAll host (messages.flatMap Prod.snd) {}).data.length }) := by
  induction h generalizing r with
  | nil => rfl
  | @cons message packet messages packets hmessage _ ih =>
    have hbytes : (writeAll host ((message :: messages).flatMap Prod.snd) {}).data =
        (writeAll host message.2 {}).data ++
          (writeAll host (messages.flatMap Prod.snd) {}).data := by
      simp [data_writeAll]
    rw [hbytes] at hdata ⊢
    obtain ⟨hfirst, hrest⟩ := append_prefix_iff.mp hdata
    rw [List.drop_drop] at hrest
    have hfit := ((prefix_drop_iff hr).mp hfirst).1
    simp only [List.map_cons, decodeEach, decode_delivered hmessage hr hfirst,
      ih (hr.at hfit) hrest, List.length_append, Nat.add_assoc]

/-- Messages written one after the other, behind whatever the writer held, are
decoded one after the other, whatever follows them, and under any options that
let their values pass. -/
theorem decodeEach_written (host : Host) (d : Decoder) {messages : List (UInt32 × List WriteOp)}
    {packets : List DecodedPacket} (h : List.Forall₂ (Delivers host d) messages packets)
    (w : ByteBufferWriter) (tail : List UInt8)
    (hlen : ((writeAll host (messages.flatMap Prod.snd) w).data ++ tail).length < 2 ^ 63) :
    decodeEach host d (messages.map Prod.fst)
        ⟨(writeAll host (messages.flatMap Prod.snd) w).data ++ tail, w.size⟩ =
      (.ok packets, ⟨(writeAll host (messages.flatMap Prod.snd) w).data ++ tail,
        (writeAll host (messages.flatMap Prod.snd) w).size⟩) := by
  have hbytes : (writeAll host (messages.flatMap Prod.snd) w).data =
      w.buffer ++ (writeAll host (messages.flatMap Prod.snd) {}).data := by
    rw [ByteBufferWriter.data, buffer_writeAll, data_writeAll]
  have hsize : (writeAll host (messages.flatMap Prod.snd) w).size =
      w.size + (writeAll host (messages.flatMap Prod.snd) {}).data.length := by
    rw [ByteBufferWriter.size, ← ByteBufferWriter.data, hbytes, List.length_append]
    rfl
  rw [hbytes] at hlen
  rw [hbytes, hsize]
  refine decodeEach_delivered h ⟨?_, hlen⟩ ?_
  · simp only [ByteBufferReader.size, List.length_append, ByteBufferWriter.size]
    omega
  · simp [ByteBufferWriter.size, List.append_assoc]

theorem decodeEach_written_probe : ∃ packets,
    decodeEach .x86 probe [1, 1] ⟨[9, 7, 8, 0], 1⟩ = (.ok packets, ⟨[9, 7, 8, 0], 3⟩) := by
  have hcarries : ∀ level, Carries .x86 probe .big { name := "level" } (.uint8 level) :=
    fun level => ⟨by decide, rfl, fun _ => rfl⟩
  have hdelivers : ∀ level, Delivers .x86 probe (1, [.uint8 level]) _ :=
    fun level => ⟨_, find_probe, .cons (hcarries level) .nil, rfl⟩
  exact ⟨_, decodeEach_written .x86 probe (.cons (hdelivers 7) (.cons (hdelivers 8) .nil)) ⟨[9]⟩ [0]
    (by decide)⟩

/-- However the writer was emptied while the messages were written, they are
decoded from what was taken of it, and what is left, as one stream. -/
theorem decodeEach_taken (host : Host) (d : Decoder) {messages : List (UInt32 × List WriteOp)}
    {packets : List DecodedPacket} (h : List.Forall₂ (Delivers host d) messages packets)
    {commands : List WriterOp} (hclear : .clear ∉ commands)
    (hwrites : writes commands = messages.flatMap Prod.snd) {bytes : List UInt8}
    (hbytes : bytes = takenOf (Lib.Machine.run (WriterOp.step host) {} commands).1 ++
      (Lib.Machine.run (WriterOp.step host) {} commands).2.buffer) (hlen : bytes.length < 2 ^ 63) :
    decodeEach host d (messages.map Prod.fst) ⟨bytes, 0⟩ =
      (.ok packets, ⟨bytes, bytes.length⟩) := by
  have hdata : (writeAll host (messages.flatMap Prod.snd) {}).data = bytes := by
    rw [hbytes, stream_eq, delivered_eq host [] hclear, hwrites, data_writeAll]
    rfl
  have hdecoded := decodeEach_delivered h (.mk_zero hlen) (hdata ▸ List.prefix_rfl)
  rwa [hdata, Nat.zero_add] at hdecoded

theorem decodeEach_taken_probe : ∃ packets,
    decodeEach .x86 probe [1, 1] ⟨[7, 8], 0⟩ = (.ok packets, ⟨[7, 8], 2⟩) := by
  have hcarries : ∀ level, Carries .x86 probe .big { name := "level" } (.uint8 level) :=
    fun level => ⟨by decide, rfl, fun _ => rfl⟩
  have hdelivers : ∀ level, Delivers .x86 probe (1, [.uint8 level]) _ :=
    fun level => ⟨_, find_probe, .cons (hcarries level) .nil, rfl⟩
  have hclear :
      .clear ∉ ([.write (.uint8 7), .take, .size, .write (.uint8 8)] : List WriterOp) := by
    simp
  exact ⟨_, decodeEach_taken .x86 probe (.cons (hdelivers 7) (.cons (hdelivers 8) .nil)) hclear
    rfl rfl (by decide)⟩

def Exact (type : DataType) : Prop := type ≠ .float32 ∧ type ≠ .float64

def Scalar.Exact : Scalar → Prop
  | .float32 | .float64 => False
  | _ => True

theorem scalarValue_injective {s : Scalar} (hs : Scalar.Exact s) :
    Function.Injective (scalarValue s) := by
  intro v v' h
  cases s with
  | int16 =>
    injection h with h
    have hint := congrArg Int64.toInt h
    exact Int16.toInt_inj.mp
      ((Int16.toInt_toInt64 v).symm.trans (hint.trans (Int16.toInt_toInt64 v')))
  | int32 =>
    injection h with h
    have hint := congrArg Int64.toInt h
    exact Int32.toInt_inj.mp
      ((Int32.toInt_toInt64 v).symm.trans (hint.trans (Int32.toInt_toInt64 v')))
  | int64 =>
    injection h
  | uint16 =>
    injection h with h
    exact UInt16.toUInt64_inj.mp h
  | uint32 =>
    injection h with h
    exact UInt32.toUInt64_inj.mp h
  | uint64 =>
    injection h
  | float32 | float64 => exact hs.elim

theorem exact_of_readOp (h : Exact f.type) {s : Scalar} {order' : ByteOrder}
    (hread : readOp order f = .scalar s order') : Scalar.Exact s := by
  unfold readOp at hread
  cases htype : f.type with
  | float32 => exact absurd htype h.1
  | float64 => exact absurd htype h.2
  | bitfield =>
    simp only [htype, containerOp] at hread
    split_ifs at hread <;> cases hread <;> trivial
  | _ =>
    rw [htype] at hread
    cases hread
    try trivial

theorem appended_of_value (hexact : Exact f.type) {op' : WriteOp} (h : op.matching = readOp order f)
    (h' : op'.matching = readOp order f) (hvalue : datumValue op.datum = datumValue op'.datum) :
    op.appended host = op'.appended host := by
  have hmatching := h.trans h'.symm
  cases op with
  | int8 v =>
    cases op' <;> cases hmatching
    injection hvalue with hvalue
    have hv := Int8.toInt_inj.mp (by simpa using congrArg Int64.toInt hvalue)
    rw [hv]
  | uint8 v =>
    cases op' <;> cases hmatching
    injection hvalue with hvalue
    rw [UInt8.toUInt64_inj.mp hvalue]
  | scalar s v order' =>
    cases op' <;> cases hmatching
    rw [scalarValue_injective (exact_of_readOp hexact h.symm) hvalue]
  | bytes data =>
    cases op' <;> simp only [WriteOp.matching, reduceCtorEq] at hmatching
    injection hvalue
  | string str fixedSize =>
    cases op' <;> simp only [WriteOp.matching, reduceCtorEq] at hmatching
    injection hvalue

theorem data_of_values (hexact : ∀ f ∈ fs, Exact f.type) {ops' : List WriteOp}
    (h : List.Forall₂ (Carries host d order) fs ops)
    (h' : List.Forall₂ (Carries host d order) fs ops')
    (hvalues : (List.zipWith (sent host d) fs ops).map DecodedField.rawValue =
      (List.zipWith (sent host d) fs ops').map DecodedField.rawValue) :
    (writeAll host ops {}).data = (writeAll host ops' {}).data := by
  induction h generalizing ops' with
  | nil =>
    cases h'
    rfl
  | @cons f op fs ops hop _ ih =>
    cases h' with
    | cons hop' hops' =>
      simp only [List.zipWith_cons_cons, List.map_cons, List.cons.injEq] at hvalues
      rw [List.forall_mem_cons] at hexact
      rw [data_writeAll_cons, data_writeAll_cons, ih hexact.2 hops' hvalues.2,
        appended_of_value hexact.1 hop.matching hop'.matching hvalues.1]

/-- Two buffers from which a packet without floats is decoded to the same raw
values hold the same bytes there, padding bits and all. -/
theorem decode_lossless (host : Host) (hstop : d.options.stopOnError = true) {id : UInt32}
    {p : Packet} (hid : d.schema.findPacketById id = some p) (hexact : ∀ f ∈ p.fields, Exact f.type)
    {r' q q' : ByteBufferReader} (hr : r.Valid) (hr' : r'.Valid) {packet packet' : DecodedPacket}
    (h : decode host d id r = (.ok packet, q)) (h' : decode host d id r' = (.ok packet', q'))
    (hvalues : packet.fields.map DecodedField.rawValue = packet'.fields.map DecodedField.rawValue) :
    q.pos - r.pos = q'.pos - r'.pos ∧
      window r.data r.pos (q.pos - r.pos) = window r'.data r'.pos (q'.pos - r'.pos) := by
  rw [decode_of_find hid] at h h'
  obtain ⟨ops, hops, hdata, rfl, rfl⟩ := (decodeFields_iff_written hstop hr).mp h
  obtain ⟨ops', hops', hdata', rfl, rfl⟩ := (decodeFields_iff_written hstop hr').mp h'
  simp only [DecodedPacket.fields_foldl_addField, List.nil_append] at hvalues
  have hsame := data_of_values hexact hops hops' hvalues
  have hwindow := ((prefix_drop_iff hr).mp hdata).2
  have hwindow' := ((prefix_drop_iff hr').mp hdata').2
  simp only [Nat.add_sub_cancel_left]
  exact ⟨congrArg List.length hsame, hwindow.trans (hsame.trans hwindow'.symm)⟩

theorem decode_lossless_survey :
    decode .x86 survey 1 ⟨[7, 1, 2, 8, 0, 72, 105, 9], 0⟩ =
        (.ok surveyed, ⟨[7, 1, 2, 8, 0, 72, 105, 9], 7⟩) ∧
      window ([7, 1, 2, 8, 0, 72, 105, 9] : List UInt8) 0 7 =
        window [0, 7, 1, 2, 8, 0, 72, 105] 1 7 := by
  have hr : (ByteBufferReader.mk [7, 1, 2, 8, 0, 72, 105, 9] 0).Valid := .mk_zero (by decide)
  have hr' : (ByteBufferReader.mk [0, 7, 1, 2, 8, 0, 72, 105] 1).Valid := ⟨by decide, by decide⟩
  have hexact : ∀ f ∈ surveyPacket.fields, Exact f.type := by
    simp [surveyPacket, Exact]
  have h : decode .x86 survey 1 ⟨[7, 1, 2, 8, 0, 72, 105, 9], 0⟩ =
      (.ok surveyed, ⟨[7, 1, 2, 8, 0, 72, 105, 9], 7⟩) := rfl
  have h' : decode .x86 survey 1 ⟨[0, 7, 1, 2, 8, 0, 72, 105], 1⟩ =
      (.ok surveyed, ⟨[0, 7, 1, 2, 8, 0, 72, 105], 8⟩) := rfl
  have hstop : survey.options.stopOnError = true := rfl
  have hlossless := decode_lossless .x86 hstop find_survey hexact hr hr' h h' rfl
  exact ⟨h, hlossless.2⟩

end IONet.Codec
