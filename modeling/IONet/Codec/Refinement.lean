import IONet.Codec.Lenient
import IONet.Core.ReaderRuns

namespace IONet.Codec

open IONet.Core Decoder

def containerOp (bitCount : UInt8) (order : ByteOrder) : ReadOp :=
  if bitCount ≤ 8 then .uint8
  else if bitCount ≤ 16 then .scalar .uint16 order
  else if bitCount ≤ 32 then .scalar .uint32 order
  else .scalar .uint64 order

def readOp (order : ByteOrder) (f : Field) : ReadOp :=
  match f.type with
  | .int8 => .int8
  | .int16 => .scalar .int16 order
  | .int32 => .scalar .int32 order
  | .int64 => .scalar .int64 order
  | .uint8 => .uint8
  | .uint16 => .scalar .uint16 order
  | .uint32 => .scalar .uint32 order
  | .uint64 => .scalar .uint64 order
  | .float32 => .scalar .float32 order
  | .float64 => .scalar .float64 order
  | .bitfield => containerOp (f.bitCount.getD 8) order
  | .string => .string (f.stringSize.getD 0)
  | .bytes => .bytes (f.arraySize.getD 0)

def scalarValue : (s : Scalar) → s.Val → Value
  | .int16, (v : Int16) => .int64 v.toInt64
  | .int32, (v : Int32) => .int64 v.toInt64
  | .int64, (v : Int64) => .int64 v
  | .uint16, (v : UInt16) => .uint64 v.toUInt64
  | .uint32, (v : UInt32) => .uint64 v.toUInt64
  | .uint64, (v : UInt64) => .uint64 v
  | .float32, (v : UInt32) => .double (Double.ofBits32 v)
  | .float64, (v : UInt64) => .double (Double.ofBits64 v)

def datumValue : Datum → Value
  | .int8 v => .int64 v.toInt64
  | .uint8 v => .uint64 v.toUInt64
  | .scalar s v => scalarValue s v
  | .bytes data => .bytes data
  | .string str => .string str

def sizeMissing (f : Field) : String :=
  match f.type with
  | .bytes => "Bytes field requires size"
  | _ => "String field requires size"

variable {host : Host} {d : Decoder} {order : ByteOrder} {f : Field} {r : ByteBufferReader}

theorem readBits_eq_run (bitCount : UInt8) (order : ByteOrder) :
    (readBits host bitCount order).map .uint64 =
      ((containerOp bitCount order).run host).map datumValue := by
  unfold readBits containerOp
  split_ifs <;> simp only [ReadOp.run, map_map] <;> rfl

theorem typedRead_eq (f : Field) (order : ByteOrder) :
    typedRead host f order = ((readOp order f).run host).map datumValue := by
  unfold typedRead readOp
  cases f.type with
  | bitfield => exact readBits_eq_run _ order
  | _ =>
    simp only [ReadOp.run, map_map]
    rfl

theorem count_containerOp (bitCount : UInt8) (order : ByteOrder) :
    (containerOp bitCount order).count = containerWidth bitCount := by
  unfold containerOp containerWidth
  split_ifs <;> rfl

theorem count_readOp (order : ByteOrder) (f : Field) : (readOp order f).count = wireWidth f := by
  unfold readOp wireWidth
  cases f.type with
  | bitfield => exact count_containerOp _ order
  | _ => rfl

theorem decodeField_of_run (d : Decoder) {datum : Datum} {r' : ByteBufferReader} (hs : Sized f)
    (h : (readOp order f).run host r = (.ok datum, r')) :
    decodeField host d f order r = (.ok (present host d f (datumValue datum)), r') := by
  rw [decodeField_of_sized hs, typedRead_eq]
  simp [caught, ReadM.map, h]

theorem decodeField_of_thrown {what : String} (hs : Sized f)
    (h : (readOp order f).thrown r = some what) :
    decodeField host d f order r = (.error ("Read error: " ++ what), r) := by
  rw [decodeField_of_sized hs, typedRead_eq]
  simp [caught, ReadM.map, ReadOp.run_of_thrown h]

theorem decodeField_of_sizeMissing (hs : ¬Sized f) :
    decodeField host d f order r = (.error (sizeMissing f), r) := by
  unfold Sized at hs
  unfold decodeField decodeRaw sizeMissing
  cases htype : f.type with
  | string =>
    simp only [htype, not_not] at hs
    simp [ReadM.map, requiresSize, hs]
  | bytes =>
    simp only [htype, not_not] at hs
    simp [ReadM.map, requiresSize, hs]
  | _ => simp [htype] at hs

def fault (order : ByteOrder) (f : Field) (r : ByteBufferReader) : Option String :=
  if Sized f then ((readOp order f).thrown r).map ("Read error: " ++ ·) else some (sizeMissing f)

theorem decodeField_of_fault {message : String} (h : fault order f r = some message) :
    decodeField host d f order r = (.error message, r) := by
  unfold fault at h
  split_ifs at h with hs
  · obtain ⟨what, hwhat, rfl⟩ := Option.map_eq_some_iff.mp h
    exact decodeField_of_thrown hs hwhat
  · cases h
    exact decodeField_of_sizeMissing hs

theorem run_of_no_fault (host : Host) (hr : r.Valid) (h : fault order f r = none) :
    Sized f ∧ r.pos + wireWidth f ≤ r.size ∧ ∃ datum,
      (readOp order f).run host r = (.ok datum, { r with pos := r.pos + wireWidth f }) := by
  unfold fault at h
  split_ifs at h with hs
  rw [Option.map_eq_none_iff, ReadOp.thrown_eq_none_iff hr] at h
  obtain ⟨datum, hrun⟩ := ReadOp.run_of_fits host hr h
  rw [count_readOp] at h hrun
  exact ⟨hs, h, datum, hrun⟩

theorem fault_congr {r' : ByteBufferReader} (hpos : r'.pos = r.pos) (hsize : r'.size = r.size) :
    fault order f r' = fault order f r := by
  rw [fault, fault, ReadOp.thrown_congr hpos hsize]

section

variable {fs : List Field} {result : DecodedPacket}

theorem decodeFields_cons_of_fault {message : String} (h : fault order f r = some message) :
    decodeFields host d order (f :: fs) result r =
      if d.options.stopOnError then
        (.error ⟨"Failed to decode field '" ++ f.name ++ "': " ++ message⟩, r)
      else decodeFields host d order fs result r := by
  rw [decodeFields, decodeField_of_fault h]

def violation (d : Decoder) (f : Field) (field : DecodedField) : Option String :=
  match if d.options.validateConstraints then validateConstraints field f else .ok () with
  | .error message => some message
  | .ok () => none

theorem decodeFields_cons_of_read {field : DecodedField} {r' : ByteBufferReader}
    (h : decodeField host d f order r = (.ok field, r')) :
    decodeFields host d order (f :: fs) result r =
      match if d.options.stopOnError then violation d f field else none with
      | some message => (.error ⟨message⟩, r')
      | none => decodeFields host d order fs (result.addField field) r' := by
  simp only [decodeFields, h, violation]
  cases (if d.options.validateConstraints then validateConstraints field f else .ok ()) with
  | error message => cases d.options.stopOnError <;> rfl
  | ok => cases d.options.stopOnError <;> rfl

end

/-- The reads of a field list: a field without its size makes none. -/
def reads (order : ByteOrder) (fs : List Field) : List ReadOp :=
  (fs.filter (Sized ·)).map (readOp order)

theorem reads_cons_of_sized (hs : Sized f) (fs : List Field) :
    reads order (f :: fs) = readOp order f :: reads order fs := by
  simp [reads, hs]

theorem reads_cons_of_not_sized (hs : ¬Sized f) (fs : List Field) :
    reads order (f :: fs) = reads order fs := by
  simp [reads, hs]

theorem leaves_reads_cons (host : Host) (order : ByteOrder) (f : Field) (hr : r.Valid)
    (fs : List Field) :
    leaves host ((reads order (f :: fs)).map .read) r = leaves host ((reads order fs).map .read)
      (match fault order f r with
      | some _ => r
      | none => { r with pos := r.pos + wireWidth f }) := by
  by_cases hs : Sized f
  · rw [reads_cons_of_sized hs, List.map_cons, leaves, List.foldl_cons]
    cases hfault : fault order f r with
    | some message =>
      rw [fault, if_pos hs, Option.map_eq_some_iff] at hfault
      obtain ⟨what, hwhat, -⟩ := hfault
      simp only [ReaderOp.run, ReadM.map, ReadOp.run_of_thrown hwhat]
      rfl
    | none =>
      obtain ⟨-, -, datum, hrun⟩ := run_of_no_fault host hr hfault
      simp only [ReaderOp.run, ReadM.map, hrun]
      rfl
  · rw [reads_cons_of_not_sized hs, fault, if_neg hs]

theorem decodeFields_leaves (host : Host) (d : Decoder) (order : ByteOrder) (fs : List Field)
    (result : DecodedPacket) (hr : r.Valid) :
    ∃ k ≤ fs.length, (decodeFields host d order fs result r).2 =
        leaves host ((reads order (fs.take k)).map .read) r ∧
      ∀ packet, (decodeFields host d order fs result r).1 = .ok packet → k = fs.length := by
  induction fs generalizing result r with
  | nil => exact ⟨0, le_rfl, rfl, fun _ _ => rfl⟩
  | cons f fs ih =>
    have hfirst := leaves_reads_cons host order f hr
    cases hfault : fault order f r with
    | some message =>
      rw [decodeFields_cons_of_fault hfault]
      simp only [hfault] at hfirst
      split_ifs
      · exact ⟨1, by simp, (hfirst []).symm, nofun⟩
      · obtain ⟨k, hk, hreader, hok⟩ := ih result hr
        refine ⟨k + 1, by simpa using hk, ?_, fun packet h => by simp [hok packet h]⟩
        rw [hreader, List.take_succ_cons, hfirst]
    | none =>
      obtain ⟨hs, hfit, datum, hrun⟩ := run_of_no_fault host hr hfault
      rw [decodeFields_cons_of_read (decodeField_of_run d hs hrun)]
      simp only [hfault] at hfirst
      split
      · exact ⟨1, by simp, (hfirst []).symm, nofun⟩
      · obtain ⟨k, hk, hreader, hok⟩ := ih (result.addField _) (hr.at hfit)
        refine ⟨k + 1, by simpa using hk, ?_, fun packet h => by simp [hok packet h]⟩
        rw [hreader, List.take_succ_cons, hfirst]

/-- The fields that the reads of `fs` return the data of. -/
def given (host : Host) (d : Decoder) (order : ByteOrder) (fs : List Field) (r : ByteBufferReader) :
    List DecodedField :=
  (List.zipWith (fun f datum => datum.map fun a => present host d f (datumValue a))
    (fs.filter (Sized ·)) (returned host (reads order fs) r)).reduceOption

theorem given_cons_of_fault {message : String} (h : fault order f r = some message)
    (fs : List Field) :
    given host d order (f :: fs) r = given host d order fs r := by
  by_cases hs : Sized f
  · rw [fault, if_pos hs, Option.map_eq_some_iff] at h
    obtain ⟨what, hwhat, -⟩ := h
    simp [given, reads_cons_of_sized hs, returned, ReadOp.run_of_thrown hwhat, hs, Except.toOption,
      List.reduceOption_cons_of_none]
  · simp [given, reads_cons_of_not_sized hs, hs]

theorem given_cons_of_run {datum : Datum} {r' : ByteBufferReader} (hs : Sized f)
    (h : (readOp order f).run host r = (.ok datum, r')) (fs : List Field) :
    given host d order (f :: fs) r =
      present host d f (datumValue datum) :: given host d order fs r' := by
  simp [given, reads_cons_of_sized hs, returned, h, hs, Except.toOption,
    List.reduceOption_cons_of_some]

theorem decodeFields_given (host : Host) (d : Decoder) (order : ByteOrder) (fs : List Field)
    (result : DecodedPacket) (hr : r.Valid) {packet : DecodedPacket}
    (h : (decodeFields host d order fs result r).1 = .ok packet) :
    packet = (given host d order fs r).foldl DecodedPacket.addField result := by
  induction fs generalizing result r with
  | nil => exact (Except.ok.inj h).symm
  | cons f fs ih =>
    cases hfault : fault order f r with
    | some message =>
      rw [decodeFields_cons_of_fault hfault] at h
      rw [given_cons_of_fault hfault]
      split_ifs at h
      exact ih result hr h
    | none =>
      obtain ⟨hs, hfit, datum, hrun⟩ := run_of_no_fault host hr hfault
      rw [decodeFields_cons_of_read (decodeField_of_run d hs hrun)] at h
      rw [given_cons_of_run hs hrun, List.foldl_cons]
      split at h
      · cases h
      · exact ih _ (hr.at hfit) h

theorem decode_unknown {id : UInt32} (hid : d.schema.findPacketById id = none)
    (r : ByteBufferReader) :
    decode host d id r = (.error ⟨"Unknown packet ID: " ++ toString id.toNat⟩, r) := by
  simp [decode, hid]

/-- Under any options and for any schema, decoding is a run of safe reads, one
for each field up to the one it gives up on; it accesses no byte but those that
the cursor passes, and a packet holds what the reads return. -/
theorem decode_is_run (host : Host) (d : Decoder) (id : UInt32) (hr : r.Valid) :
    (d.schema.findPacketById id = none → (decode host d id r).2 = r) ∧
    ∀ p, d.schema.findPacketById id = some p → ∃ k ≤ p.fields.length, ∃ ops,
      ops = (reads d.schema.byteOrder (p.fields.take k)).map .read ∧
      (decode host d id r).2 = leaves host ops r ∧ Bounded host ops r ∧
      ∀ packet, (decode host d id r).1 = .ok packet → k = p.fields.length ∧
        packet = .filled id p.name (given host d d.schema.byteOrder p.fields r) := by
  constructor
  · intro hid
    rw [decode_unknown hid]
  · intro p hid
    obtain ⟨k, hk, hreader, hok⟩ := decodeFields_leaves host d d.schema.byteOrder p.fields
      { packetId := id, packetName := p.name } hr
    rw [decode_of_find hid]
    exact ⟨k, hk, _, rfl, hreader, bounded_reads host hr _, fun packet h =>
      ⟨hok packet h, decodeFields_given host d d.schema.byteOrder p.fields _ hr h⟩⟩

theorem decode_is_run_survey :
    (decode .x86 survey 1 ⟨[7, 1, 2, 8, 0, 72, 105, 9], 0⟩).2 =
        leaves .x86 ((reads .big surveyPacket.fields).map .read) ⟨[7, 1, 2, 8, 0, 72, 105, 9], 0⟩ ∧
      surveyed = .filled 1 "survey"
        (given .x86 survey .big surveyPacket.fields ⟨[7, 1, 2, 8, 0, 72, 105, 9], 0⟩) := by
  have hr : (ByteBufferReader.mk [7, 1, 2, 8, 0, 72, 105, 9] 0).Valid := .mk_zero (by decide)
  obtain ⟨-, hrun⟩ := decode_is_run .x86 survey 1 hr
  obtain ⟨k, -, ops, rfl, hreader, -, hok⟩ := hrun _ find_survey
  obtain ⟨rfl, hgiven⟩ := hok surveyed rfl
  exact ⟨hreader, hgiven⟩

theorem window_congr {r' : ByteBufferReader} {q n : Nat} (hsize : r'.size = r.size)
    (hfit : q + n ≤ r.size)
    (hdata : ∀ i, q ≤ i → i < q + n → r'.data.getD i 0 = r.data.getD i 0) :
    Lib.Slots.window r'.data q n = Lib.Slots.window r.data q n := by
  have hbytes : (ByteBufferReader.mk r'.data q).bytesAt n =
      (ByteBufferReader.mk r.data q).bytesAt n := by
    funext i
    exact hdata (q + i) (by omega) (by omega)
  have hfit' : (ByteBufferReader.mk r'.data q).pos + n ≤ (ByteBufferReader.mk r'.data q).size := by
    change q + n ≤ r'.size
    omega
  have hwindow : List.ofFn ((ByteBufferReader.mk r.data q).bytesAt n) =
      Lib.Slots.window r.data q n :=
    ByteBufferReader.ofFn_bytesAt hfit
  rw [← hwindow, ← hbytes, ByteBufferReader.ofFn_bytesAt hfit']

theorem decodeFields_bounds (host : Host) (d : Decoder) (order : ByteOrder) (fs : List Field)
    (result : DecodedPacket) (hr : r.Valid) :
    r.pos ≤ (decodeFields host d order fs result r).2.pos ∧
      (decodeFields host d order fs result r).2.data = r.data := by
  obtain ⟨k, -, hreader, -⟩ := decodeFields_leaves host d order fs result hr
  have hbounded := bounded_reads host hr (reads order (fs.take k))
  rw [hreader]
  exact ⟨hbounded.forward, hbounded.buffer⟩

theorem decodeFields_local (fs : List Field) (result : DecodedPacket) {r' : ByteBufferReader}
    (hr : r.Valid) (hr' : r'.Valid) (hpos : r'.pos = r.pos) (hsize : r'.size = r.size)
    (hdata : ∀ i, r.pos ≤ i → i < (decodeFields host d order fs result r).2.pos →
      r'.data.getD i 0 = r.data.getD i 0) :
    decodeFields host d order fs result r' = ((decodeFields host d order fs result r).1,
      { r' with pos := (decodeFields host d order fs result r).2.pos }) := by
  induction fs generalizing result r r' with
  | nil => simp [decodeFields, ← hpos]
  | cons f fs ih =>
    have hsame : fault order f r' = fault order f r := fault_congr hpos hsize
    cases hfault : fault order f r with
    | some message =>
      rw [hfault] at hsame
      rw [decodeFields_cons_of_fault hfault] at hdata ⊢
      rw [decodeFields_cons_of_fault hsame]
      split_ifs at hdata ⊢ with hstop
      · simp [← hpos]
      · exact ih result hr hr' hpos hsize hdata
    | none =>
      obtain ⟨hs, hfit, datum, hrun⟩ := run_of_no_fault host hr hfault
      have hfield := decodeField_of_run d hs hrun
      have hle : r.pos + wireWidth f ≤ (decodeFields host d order (f :: fs) result r).2.pos := by
        rw [decodeFields_cons_of_read hfield]
        split
        · exact le_rfl
        · exact (decodeFields_bounds host d order fs _ (hr.at hfit)).1
      have hwindow : Lib.Slots.window r'.data r'.pos (wireWidth f) =
          Lib.Slots.window r.data r.pos (wireWidth f) := by
        rw [hpos]
        exact window_congr hsize hfit fun i hi hlt => hdata i hi (hlt.trans_le hle)
      have hfit' : r'.pos + wireWidth f ≤ r'.size := by omega
      rw [← count_readOp order] at hfit hfit' hwindow hrun
      have hrun' := ReadOp.run_congr hr hr' hfit hfit' hwindow hrun
      rw [count_readOp] at hfit hfit' hrun'
      have hfield' := decodeField_of_run d hs hrun'
      rw [decodeFields_cons_of_read hfield] at hdata ⊢
      rw [decodeFields_cons_of_read hfield']
      generalize (if d.options.stopOnError then violation d f (present host d f (datumValue datum))
        else none) = verdict at hdata ⊢
      cases verdict with
      | some message => simp [hpos]
      | none =>
        refine ih (result.addField _) (hr.at hfit) (hr'.at hfit') (by simp [hpos]) hsize ?_
        exact fun i hi hlt => hdata i ((Nat.le_add_right _ _).trans hi) hlt

/-- Decoding depends on the position, on the size of the buffer and on the bytes
that it moves over, and on nothing else. -/
theorem decode_local (host : Host) (d : Decoder) (id : UInt32) {r' : ByteBufferReader}
    (hr : r.Valid) (hpos : r'.pos = r.pos) (hsize : r'.size = r.size)
    (hdata : ∀ i, r.pos ≤ i → i < (decode host d id r).2.pos →
      r'.data.getD i 0 = r.data.getD i 0) :
    decode host d id r' =
      ((decode host d id r).1, { r' with pos := (decode host d id r).2.pos }) := by
  have hr' : r'.Valid := ⟨by rw [hpos, hsize]; exact hr.pos_le, by rw [hsize]; exact hr.size_lt⟩
  cases hid : d.schema.findPacketById id with
  | none => rw [decode_unknown hid, decode_unknown hid, ← hpos]
  | some p =>
    rw [decode_of_find hid] at hdata ⊢
    rw [decode_of_find hid]
    exact decodeFields_local p.fields _ hr hr' hpos hsize hdata

theorem decode_local_probe : decode .x86 probe 1 ⟨[9, 7, 9], 1⟩ =
    ((decode .x86 probe 1 ⟨[0, 7, 0], 1⟩).1, ⟨[9, 7, 9], 2⟩) := by
  have hr : (ByteBufferReader.mk [0, 7, 0] 1).Valid := ⟨by decide, by decide⟩
  refine decode_local .x86 probe 1 hr rfl rfl fun i hi hlt => ?_
  have hend : (decode .x86 probe 1 ⟨[0, 7, 0], 1⟩).2.pos = 2 := rfl
  have hone : i = 1 := by
    rw [hend] at hlt
    exact le_antisymm (Nat.le_of_lt_succ hlt) hi
  rw [hone]
  rfl

end IONet.Codec
