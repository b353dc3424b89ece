import IONet.Codec.Refinement
import IONet.Codec.Reordered

namespace IONet.Codec

open IONet.Core Endian Lib.Bytes Lib.Slots Decoder

def multibyte (f : Field) : Bool :=
  match f.type with
  | .int8 | .uint8 | .string | .bytes => false
  | .bitfield => containerWidth (f.bitCount.getD 8) != 1
  | _ => true

def turned (flip : Bool) (f : Field) (bs : List UInt8) : List UInt8 :=
  if flip && multibyte f then bs.reverse else bs

/-- The bytes of a packet with every word turned round in its place. -/
def mirrored (flip : Bool) : List Field → List UInt8 → List UInt8
  | [], bs => bs
  | f :: fs, bs => turned flip f (bs.take (wireWidth f)) ++ mirrored flip fs (bs.drop (wireWidth f))

@[simp] theorem length_turned (flip : Bool) (f : Field) (bs : List UInt8) :
    (turned flip f bs).length = bs.length := by
  unfold turned
  split_ifs <;> simp

@[simp] theorem length_mirrored (flip : Bool) (fs : List Field) (bs : List UInt8) :
    (mirrored flip fs bs).length = bs.length := by
  induction fs generalizing bs with
  | nil => rfl
  | cons f fs ih =>
    rw [mirrored, List.length_append, ih, length_turned, ← List.length_append,
      List.take_append_drop]

@[simp] theorem mirrored_false (fs : List Field) (bs : List UInt8) : mirrored false fs bs = bs := by
  induction fs generalizing bs with
  | nil => rfl
  | cons f fs ih => simp [mirrored, turned, ih]

def opposite : Endian → Endian
  | .little => .big
  | .big => .little

theorem wireVal_mirror (host : Host) (order : ByteOrder) (bs : List UInt8) :
    wireVal (order.resolve host) (host.mirror bs) =
      wireVal (if needsSwap host order then .little else .big) bs := by
  unfold Host.mirror ByteOrder.resolve needsSwap
  cases order <;> cases host.native <;> simp [wireVal, beVal]

theorem wireVal_reverse (e : Endian) (bs : List UInt8) :
    wireVal e bs.reverse = wireVal (opposite e) bs := by
  cases e <;> simp [opposite, wireVal, beVal]

variable {host host' : Host} {order order' : ByteOrder} {f : Field} {r r' : ByteBufferReader}

/-- The same is read of a word turned round when only one of the two swaps, and
of the word as it is when both or none do. -/
theorem read_turned {flip : Bool} (hflip : flip = (needsSwap host' order' != needsSwap host order))
    (s : Scalar) (hr : r.Valid) (hr' : r'.Valid) (hfit : r.pos + s.width ≤ r.size)
    (hfit' : r'.pos + s.width ≤ r'.size)
    (hwindow : window r'.data r'.pos s.width =
      if flip then (window r.data r.pos s.width).reverse else window r.data r.pos s.width) :
    ∃ v, s.read host order r = (.ok v, { r with pos := r.pos + s.width }) ∧
      s.read host' order' r' = (.ok v, { r' with pos := r'.pos + s.width }) := by
  obtain ⟨v, hread, hv⟩ := s.read_eq host order hr hfit
  obtain ⟨v', hread', hv'⟩ := s.read_eq host' order' hr' hfit'
  have hpattern : s.pattern v' = s.pattern v := by
    rw [hv, hv', wireVal_mirror, wireVal_mirror, hwindow, hflip]
    cases needsSwap host order <;> cases needsSwap host' order' <;> simp [wireVal_reverse, opposite]
  rw [s.pattern_injective hpattern] at hread'
  exact ⟨v, hread, hread'⟩

theorem containerWidth_eq_one_iff (bitCount : UInt8) :
    containerWidth bitCount = 1 ↔ bitCount ≤ 8 := by
  unfold containerWidth
  split_ifs with hbyte <;> simp [hbyte]

theorem readOp_of_multibyte (h : multibyte f = true) :
    ∃ s, ∀ order, readOp order f = .scalar s order := by
  unfold multibyte at h
  unfold readOp
  cases htype : f.type with
  | int8 | uint8 | string | bytes => simp [htype] at h
  | bitfield =>
    simp only [htype, bne_iff_ne, ne_eq, containerWidth_eq_one_iff] at h
    simp only [containerOp, h, if_false]
    split_ifs <;> exact ⟨_, fun _ => rfl⟩
  | _ => exact ⟨_, fun _ => rfl⟩

theorem run_of_not_multibyte (h : multibyte f = false) (host host' : Host)
    (order order' : ByteOrder) :
    (readOp order' f).run host' = (readOp order f).run host := by
  unfold multibyte at h
  unfold readOp
  cases htype : f.type with
  | int8 | uint8 | string | bytes => rfl
  | bitfield =>
    simp only [htype, bne_eq_false_iff_eq, containerWidth_eq_one_iff] at h
    simp only [containerOp, h, if_true]
    rfl
  | _ => simp [htype] at h

theorem run_turned {flip : Bool} (hflip : flip = (needsSwap host' order' != needsSwap host order))
    (hr : r.Valid) (hr' : r'.Valid) (hfit : r.pos + wireWidth f ≤ r.size)
    (hfit' : r'.pos + wireWidth f ≤ r'.size)
    (hwindow : window r'.data r'.pos (wireWidth f) =
      turned flip f (window r.data r.pos (wireWidth f))) :
    ∃ datum, (readOp order f).run host r = (.ok datum, { r with pos := r.pos + wireWidth f }) ∧
      (readOp order' f).run host' r' = (.ok datum, { r' with pos := r'.pos + wireWidth f }) := by
  unfold turned at hwindow
  cases hmulti : multibyte f with
  | true =>
    obtain ⟨s, hs⟩ := readOp_of_multibyte hmulti
    have hwidth : wireWidth f = s.width := by rw [← count_readOp order, hs, ReadOp.count]
    rw [hmulti, Bool.and_true] at hwindow
    rw [hwidth] at hfit hfit' hwindow ⊢
    obtain ⟨v, hread, hread'⟩ := read_turned hflip s hr hr' hfit hfit' hwindow
    rw [hs, hs]
    exact ⟨.scalar s v, ReadM.map_eq hread _, ReadM.map_eq hread' _⟩
  | false =>
    simp only [hmulti, Bool.and_false, Bool.false_eq_true, if_false] at hwindow
    rw [run_of_not_multibyte hmulti host host' order order']
    rw [← count_readOp order] at hfit hfit' hwindow ⊢
    obtain ⟨datum, hrun⟩ := ReadOp.run_of_fits host hr hfit
    exact ⟨datum, hrun, ReadOp.run_congr hr hr' hfit hfit' hwindow hrun⟩

theorem tooLong_readOp (f : Field) (order order' : ByteOrder) :
    (readOp order' f).tooLong = (readOp order f).tooLong := by
  unfold readOp
  cases f.type with
  | bitfield =>
    simp only [containerOp]
    split_ifs <;> rfl
  | _ => rfl

theorem fault_of_order (f : Field) (order order' : ByteOrder) (r : ByteBufferReader) :
    fault order' f r = fault order f r := by
  rw [fault, fault, ReadOp.thrown, ReadOp.thrown, count_readOp, count_readOp,
    tooLong_readOp f order order']

theorem present_of_shift (hshift : host'.wideShift = host.wideShift) (d : Decoder) (f : Field) :
    present host' d f = present host d f := by
  have hword : host'.shiftRight = host.shiftRight := by
    funext word bit
    rw [Host.shiftRight, Host.shiftRight, hshift]
  have hflags : decodeBitfield host' = decodeBitfield host := by
    funext raw g
    rw [decodeBitfield, decodeBitfield, hword]
  funext raw
  simp only [present, flagsOf, hflags]

theorem drop_mirrored {flip : Bool} {fs : List Field} (hfit : r.pos + wireWidth f ≤ r.size)
    (hdata : r'.data.drop r.pos = mirrored flip (f :: fs) (r.data.drop r.pos)) :
    window r'.data r.pos (wireWidth f) = turned flip f (window r.data r.pos (wireWidth f)) ∧
      r'.data.drop (r.pos + wireWidth f) =
        mirrored flip fs (r.data.drop (r.pos + wireWidth f)) := by
  have hlen : (turned flip f (window r.data r.pos (wireWidth f))).length = wireWidth f := by
    rw [length_turned, length_window hfit]
  have hsplit : r'.data.drop r.pos = turned flip f (window r.data r.pos (wireWidth f)) ++
      mirrored flip fs (r.data.drop (r.pos + wireWidth f)) := by
    rw [hdata, mirrored, List.drop_drop]
    rfl
  constructor
  · rw [window, hsplit, List.take_left' hlen]
  · rw [← List.drop_drop, hsplit, List.drop_left' hlen]

theorem decodeFields_mirrored {flip : Bool} {d : Decoder}
    (hflip : flip = (needsSwap host' order' != needsSwap host order))
    (hshift : host'.wideShift = host.wideShift)
    (hmode : d.options.stopOnError = true ∨ flip = false) (fs : List Field)
    (result : DecodedPacket) (hr : r.Valid) (hr' : r'.Valid)
    (hpos : r'.pos = r.pos) (hsize : r'.size = r.size)
    (hdata : r'.data.drop r.pos = mirrored flip fs (r.data.drop r.pos)) :
    decodeFields host' d order' fs result r' = ((decodeFields host d order fs result r).1,
      { r' with pos := (decodeFields host d order fs result r).2.pos }) := by
  induction fs generalizing result r r' with
  | nil => simp [decodeFields, ← hpos]
  | cons f fs ih =>
    have hsame : fault order' f r' = fault order f r :=
      (fault_of_order f order order' r').trans (fault_congr hpos hsize)
    cases hfault : fault order f r with
    | some message =>
      rw [hfault] at hsame
      rw [decodeFields_cons_of_fault hfault, decodeFields_cons_of_fault hsame]
      split_ifs with hstop
      · simp [← hpos]
      · -- The field is passed over, so nothing may be turned round.
        have hplain := hmode.resolve_left hstop
        subst hplain
        rw [mirrored_false] at hdata
        exact ih result hr hr' hpos hsize (by rw [hdata, mirrored_false])
    | none =>
      obtain ⟨hs, hfit, -⟩ := run_of_no_fault host hr hfault
      obtain ⟨hwindow, hrest⟩ := drop_mirrored hfit hdata
      have hfit' : r'.pos + wireWidth f ≤ r'.size := by omega
      obtain ⟨datum, hrun, hrun'⟩ := run_turned hflip hr hr' hfit hfit' (hpos.symm ▸ hwindow)
      rw [decodeFields_cons_of_read (decodeField_of_run d hs hrun),
        decodeFields_cons_of_read (decodeField_of_run d hs hrun'), present_of_shift hshift]
      generalize (if d.options.stopOnError then violation d f (present host d f (datumValue datum))
        else none) = verdict
      cases verdict with
      | some message => simp [hpos]
      | none =>
        exact ih (result.addField _) (hr.at hfit) (hr'.at hfit')
          (congrArg (· + wireWidth f) hpos) hsize hrest

theorem decode_native (host : Host) (s : Schema) (o : DecodeOptions) {id : UInt32} {p : Packet}
    (hid : s.findPacketById id = some p) (hr : r.Valid) :
    decode host ⟨s.setByteOrder (getNativeByteOrder host), o⟩ id r =
      decode host ⟨s.setByteOrder .native, o⟩ id r := by
  have hflip : false = (needsSwap host (getNativeByteOrder host) != needsSwap host .native) := by
    unfold needsSwap getNativeByteOrder
    cases host.native <;> rfl
  rw [decode_of_find (d := ⟨s.setByteOrder (getNativeByteOrder host), o⟩) hid,
    decode_of_find (d := ⟨s.setByteOrder .native, o⟩) hid,
    decodeFields_of_options (s.setByteOrder (getNativeByteOrder host)) (s.setByteOrder .native)]
  have hsame := decodeFields_mirrored (d := ⟨s.setByteOrder .native, o⟩) hflip rfl (.inr rfl)
    p.fields { packetId := id, packetName := p.name } hr hr rfl rfl (by rw [mirrored_false])
  obtain ⟨-, hdata⟩ := decodeFields_bounds host ⟨s.setByteOrder .native, o⟩ .native p.fields
    { packetId := id, packetName := p.name } hr
  refine hsame.trans (Prod.ext rfl ?_)
  exact congrArg (ByteBufferReader.mk · _) hdata.symm

/-- The byte orders of the host and of the schema decide one thing only: whether
the words are turned round. -/
theorem decode_mirrored (hshift : host'.wideShift = host.wideShift) (s : Schema) (o : DecodeOptions)
    {flip : Bool} (hflip : flip = (needsSwap host' order' != needsSwap host order))
    (hmode : o.stopOnError = true ∨ flip = false) {id : UInt32} {p : Packet}
    (hid : s.findPacketById id = some p) (hr : r.Valid) :
    decode host' ⟨s.setByteOrder order', o⟩ id
        ⟨r.data.take r.pos ++ mirrored flip p.fields (r.data.drop r.pos), r.pos⟩ =
      ((decode host ⟨s.setByteOrder order, o⟩ id r).1,
        ⟨r.data.take r.pos ++ mirrored flip p.fields (r.data.drop r.pos),
          (decode host ⟨s.setByteOrder order, o⟩ id r).2.pos⟩) ∧
      decode host ⟨s.setByteOrder (getNativeByteOrder host), o⟩ id r =
        decode host ⟨s.setByteOrder .native, o⟩ id r := by
  refine ⟨?_, decode_native host s o hid hr⟩
  have hpos := hr.pos_le
  have hsize := hr.size_lt
  simp only [ByteBufferReader.size] at hpos hsize
  have hlen : (r.data.take r.pos ++ mirrored flip p.fields (r.data.drop r.pos)).length =
      r.data.length := by
    simp only [List.length_append, length_mirrored, List.length_take, List.length_drop]
    omega
  have hr' : (ByteBufferReader.mk
      (r.data.take r.pos ++ mirrored flip p.fields (r.data.drop r.pos)) r.pos).Valid := by
    constructor <;> simp only [ByteBufferReader.size, hlen] <;> assumption
  rw [decode_of_find (d := ⟨s.setByteOrder order', o⟩) hid,
    decode_of_find (d := ⟨s.setByteOrder order, o⟩) hid,
    decodeFields_of_options (s.setByteOrder order') (s.setByteOrder order)]
  refine decodeFields_mirrored hflip hshift hmode p.fields _ hr hr' rfl hlen ?_
  rw [List.drop_left' (by simp [hpos])]

def wordPacket : Packet where
  id := 1
  name := "word"
  fields := [{ name := "value", type := .uint16 }]

def wordSchema : Schema := ({} : Schema).addPacket wordPacket

theorem decode_mirrored_word : decode .s390x ⟨wordSchema.setByteOrder .big, {}⟩ 1 ⟨[2, 1], 0⟩ =
      ((decode .x86 ⟨wordSchema.setByteOrder .big, {}⟩ 1 ⟨[1, 2], 0⟩).1, ⟨[2, 1], 2⟩) ∧
    decode .x86 ⟨wordSchema.setByteOrder (getNativeByteOrder .x86), {}⟩ 1 ⟨[1, 2], 0⟩ =
      decode .x86 ⟨wordSchema.setByteOrder .native, {}⟩ 1 ⟨[1, 2], 0⟩ := by
  have hr : (ByteBufferReader.mk [1, 2] 0).Valid := .mk_zero (by decide)
  have hshift : Host.s390x.wideShift = Host.x86.wideShift := rfl
  have hflip : true = (needsSwap .s390x .big != needsSwap .x86 .big) := rfl
  have hid : wordSchema.findPacketById 1 = some wordPacket := rfl
  exact decode_mirrored hshift wordSchema {} hflip (.inl rfl) hid hr

end IONet.Codec
