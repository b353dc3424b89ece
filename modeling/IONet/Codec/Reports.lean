import IONet.Codec.Refinement

namespace IONet.Codec

open IONet.Core Decoder

variable {host : Host} {d : Decoder} {order : ByteOrder} {f : Field} {fs : List Field}
  {r r' : ByteBufferReader}

/-- What is reported of a field that starts at position `p`, and the position
that the reader is left at. -/
inductive Reported (host : Host) (d : Decoder) (order : ByteOrder) (data : List UInt8) (f : Field)
    (p : Nat) : Error → Nat → Prop
  | noSize (hs : ¬Sized f) : Reported host d order data f p
      ⟨"Failed to decode field '" ++ f.name ++ "': " ++ sizeMissing f⟩ p
  | underflow (hs : Sized f) (hlt : data.length < p + wireWidth f)
      (hsum : p + wireWidth f < 2 ^ 64) :
      Reported host d order data f p
        ⟨"Failed to decode field '" ++ f.name ++ "': " ++ ("Read error: " ++
          ("Buffer underflow: need " ++ toString (wireWidth f) ++ " bytes, have " ++
            toString (data.length - p)))⟩ p
  -- The sum wraps and passes the check, but no container is that long.
  | tooLong (hs : Sized f) (hsum : 2 ^ 64 ≤ p + wireWidth f) {what : String}
      (hwhat : (readOp order f).tooLong = some what) : Reported host d order data f p
        ⟨"Failed to decode field '" ++ f.name ++ "': " ++ ("Read error: " ++ what)⟩ p
  | violated (hs : Sized f) (hfit : p + wireWidth f ≤ data.length) {raw : Value}
      (hraw : (typedRead host f order ⟨data, p⟩).1 = .ok raw) {message : String}
      (hviolation : violation d f (present host d f raw) = some message) :
      Reported host d order data f p ⟨message⟩ (p + wireWidth f)

def FirstReport (host : Host) (d : Decoder) (order : ByteOrder) (data : List UInt8)
    (fs : List Field) (p : Nat) (e : Error) (q : Nat) : Prop :=
  ∃ k f, fs[k]? = some f ∧ Reported host d order data f (p + offset fs k) e q ∧
    ∀ j g, j < k → fs[j]? = some g → ∀ e' q', ¬Reported host d order data g (p + offset fs j) e' q'

theorem firstReport_cons_iff {data : List UInt8} {p q : Nat} {e : Error} :
    FirstReport host d order data (f :: fs) p e q ↔ Reported host d order data f p e q ∨
      (∀ e' q', ¬Reported host d order data f p e' q') ∧
        FirstReport host d order data fs (p + wireWidth f) e q := by
  have hstart : p + offset (f :: fs) 0 = p := rfl
  have hnext : ∀ k, p + offset (f :: fs) (k + 1) = p + wireWidth f + offset fs k := by
    intro k
    simp [offset, Nat.add_assoc]
  constructor
  · rintro ⟨k, g, hk, hreported, hbefore⟩
    cases k with
    | zero =>
      cases hk
      exact .inl (hstart ▸ hreported)
    | succ k =>
      refine .inr ⟨hstart ▸ hbefore 0 f k.succ_pos rfl, k, g, hk, hnext k ▸ hreported, ?_⟩
      intro j g' hj hg'
      exact hnext j ▸ hbefore (j + 1) g' (by omega) hg'
  · rintro (hreported | ⟨hnone, k, g, hk, hreported, hbefore⟩)
    · exact ⟨0, f, rfl, hreported, fun j _ hj => absurd hj j.not_lt_zero⟩
    · refine ⟨k + 1, g, hk, (hnext k).symm ▸ hreported, fun j g' hj hg' => ?_⟩
      cases j with
      | zero =>
        cases hg'
        exact hnone
      | succ j => exact (hnext j).symm ▸ hbefore j g' (by omega) hg'

theorem thrown_of_underflow (hr : r.Valid) (hlt : r.size < r.pos + wireWidth f)
    (hsum : r.pos + wireWidth f < 2 ^ 64) : (readOp order f).thrown r =
      some ("Buffer underflow: need " ++ toString (wireWidth f) ++ " bytes, have " ++
        toString (r.size - r.pos)) := by
  have hmod : (r.pos + wireWidth f) % 2 ^ 64 = r.pos + wireWidth f := Nat.mod_eq_of_lt hsum
  rw [ReadOp.thrown, refusal, count_readOp, ByteBufferReader.checkRemaining, hmod, if_pos hlt,
    hr.remaining_eq]

theorem thrown_of_wraps (order : ByteOrder) (hr : r.Valid) (hsum : 2 ^ 64 ≤ r.pos + wireWidth f) :
    (readOp order f).thrown r = (readOp order f).tooLong := by
  have hpos := hr.pos_le
  have hsize := hr.size_lt
  have hwidth : wireWidth f < 2 ^ 64 := by
    unfold wireWidth
    cases f.type with
    | string | bytes => exact UInt64.toNat_lt _
    | bitfield =>
      simp only [containerWidth]
      split_ifs <;> omega
    | _ => simp only; omega
  have hmod : (r.pos + wireWidth f) % 2 ^ 64 = r.pos + wireWidth f - 2 ^ 64 := by omega
  rw [ReadOp.thrown, refusal, count_readOp, ByteBufferReader.checkRemaining, hmod,
    if_neg (by omega)]

theorem reported_of_fault (hr : r.Valid) {message : String} (h : fault order f r = some message) :
    Reported host d order r.data f r.pos
      ⟨"Failed to decode field '" ++ f.name ++ "': " ++ message⟩ r.pos := by
  unfold fault at h
  split_ifs at h with hs
  · obtain ⟨what, hwhat, rfl⟩ := Option.map_eq_some_iff.mp h
    by_cases hsum : 2 ^ 64 ≤ r.pos + wireWidth f
    · exact .tooLong hs hsum (thrown_of_wraps order hr hsum ▸ hwhat)
    · have hlt : r.size < r.pos + wireWidth f := by
        by_contra hfit
        rw [not_lt, ← count_readOp order, ← ReadOp.thrown_eq_none_iff hr, hwhat] at hfit
        cases hfit
      rw [thrown_of_underflow hr hlt (not_le.mp hsum)] at hwhat
      cases hwhat
      exact .underflow hs hlt (not_le.mp hsum)
  · cases h
    exact .noSize hs

theorem fault_of_reported (hr : r.Valid) {e : Error} {q : Nat}
    (h : Reported host d order r.data f r.pos e q) :
    (∃ message, fault order f r = some message ∧ q = r.pos ∧
      e = ⟨"Failed to decode field '" ++ f.name ++ "': " ++ message⟩) ∨
    ∃ raw message, typedRead host f order r = (.ok raw, { r with pos := r.pos + wireWidth f }) ∧
      Sized f ∧ r.pos + wireWidth f ≤ r.size ∧ violation d f (present host d f raw) = some message ∧
      e = ⟨message⟩ ∧ q = r.pos + wireWidth f := by
  cases h with
  | noSize hs => exact .inl ⟨_, if_neg hs, rfl, rfl⟩
  | underflow hs hlt hsum =>
    refine .inl ⟨_, ?_, rfl, rfl⟩
    rw [fault, if_pos hs, thrown_of_underflow hr hlt hsum]
    rfl
  | tooLong hs hsum hwhat =>
    refine .inl ⟨_, ?_, rfl, rfl⟩
    rw [fault, if_pos hs, thrown_of_wraps order hr hsum, hwhat]
    rfl
  | @violated hs hfit raw hraw message hviolation =>
    obtain ⟨a, -, ha⟩ := (typedRead_reads host f order).fits r hr hfit
    have har : (typedRead host f order r).1 = .ok a := congrArg Prod.fst ha
    cases Except.ok.inj (har.symm.trans hraw)
    exact .inr ⟨raw, message, ha, hs, hfit, hviolation, rfl, rfl⟩

theorem reported_of_fault_iff (hr : r.Valid) {message : String}
    (h : fault order f r = some message) {e : Error} {q : Nat} :
    Reported host d order r.data f r.pos e q ↔
      e = ⟨"Failed to decode field '" ++ f.name ++ "': " ++ message⟩ ∧ q = r.pos := by
  constructor
  · intro hreported
    rcases fault_of_reported hr hreported with
      ⟨message', hmessage', hq, he⟩ | ⟨_, _, -, hs, hfit, -⟩
    · rw [h] at hmessage'
      cases hmessage'
      exact ⟨he, hq⟩
    · have hnone : fault order f r = none := by
        rw [fault, if_pos hs, Option.map_eq_none_iff, ReadOp.thrown_eq_none_iff hr, count_readOp]
        exact hfit
      rw [h] at hnone
      cases hnone
  · rintro ⟨rfl, rfl⟩
    exact reported_of_fault hr h

theorem reported_of_read_iff (hr : r.Valid) (h : fault order f r = none) {raw : Value}
    (hraw : typedRead host f order r = (.ok raw, { r with pos := r.pos + wireWidth f })) {e : Error}
    {q : Nat} : Reported host d order r.data f r.pos e q ↔
      violation d f (present host d f raw) = some e.message ∧ q = r.pos + wireWidth f := by
  constructor
  · intro hreported
    rcases fault_of_reported hr hreported with
      ⟨_, hmessage, -⟩ | ⟨_, _, hraw', -, -, hviolation, he, hq⟩
    · rw [h] at hmessage
      cases hmessage
    · rw [hraw] at hraw'
      cases hraw'
      exact ⟨he ▸ hviolation, hq⟩
  · rintro ⟨hviolation, rfl⟩
    obtain ⟨hs, hfit, -⟩ := run_of_no_fault host hr h
    exact .violated hs hfit (congrArg Prod.fst hraw) hviolation

theorem decodeFields_error_iff (host : Host) (hstop : d.options.stopOnError = true) (hr : r.Valid)
    (result : DecodedPacket) (e : Error) (r' : ByteBufferReader) :
    decodeFields host d order fs result r = (.error e, r') ↔
      ∃ q, r' = { r with pos := q } ∧ FirstReport host d order r.data fs r.pos e q := by
  induction fs generalizing result r with
  | nil => simp [decodeFields, FirstReport]
  | cons f fs ih =>
    simp only [firstReport_cons_iff]
    cases hfault : fault order f r with
    | some message =>
      rw [decodeFields_cons_of_fault hfault, if_pos hstop]
      simp only [reported_of_fault_iff hr hfault, Prod.mk.injEq, Except.error.injEq]
      constructor
      · rintro ⟨rfl, rfl⟩
        exact ⟨r.pos, rfl, .inl ⟨rfl, rfl⟩⟩
      · rintro ⟨q, rfl, ⟨rfl, rfl⟩ | ⟨hnone, -⟩⟩
        · exact ⟨rfl, rfl⟩
        · exact absurd ⟨rfl, rfl⟩ (hnone _ _)
    | none =>
      obtain ⟨hs, hfit, datum, hrun⟩ := run_of_no_fault host hr hfault
      have hraw : typedRead host f order r =
          (.ok (datumValue datum), { r with pos := r.pos + wireWidth f }) := by
        rw [typedRead_eq]
        exact ReadM.map_eq hrun datumValue
      rw [decodeFields_cons_of_read (decodeField_of_run d hs hrun), if_pos hstop]
      simp only [reported_of_read_iff hr hfault hraw]
      cases hviolation : violation d f (present host d f (datumValue datum)) with
      | some message =>
        simp only [Prod.mk.injEq, Except.error.injEq, Option.some.injEq]
        constructor
        · rintro ⟨rfl, rfl⟩
          exact ⟨_, rfl, .inl ⟨rfl, rfl⟩⟩
        · rintro ⟨q, rfl, ⟨hmessage, rfl⟩ | ⟨hnone, -⟩⟩
          · exact ⟨congrArg Error.mk hmessage, rfl⟩
          · exact absurd ⟨rfl, rfl⟩ (hnone ⟨message⟩ _)
      | none =>
        rw [ih (hr.at hfit)]
        simp

/-- Strict decoding fails with the report of the first field that has one, and
stands where that field left it. -/
theorem decode_error_iff (host : Host) (hstop : d.options.stopOnError = true) (hr : r.Valid)
    (id : UInt32) (e : Error) (r' : ByteBufferReader) :
    decode host d id r = (.error e, r') ↔
      (d.schema.findPacketById id = none ∧
        e = ⟨"Unknown packet ID: " ++ toString id.toNat⟩ ∧ r' = r) ∨
      ∃ p q, d.schema.findPacketById id = some p ∧ r' = { r with pos := q } ∧
        FirstReport host d d.schema.byteOrder r.data p.fields r.pos e q := by
  cases hid : d.schema.findPacketById id with
  | none =>
    rw [decode_unknown hid]
    simp [eq_comm]
  | some p =>
    rw [decode_of_find hid, decodeFields_error_iff host hstop hr]
    simp

theorem decode_error_iff_short : decode .x86 probe 1 ⟨[7], 1⟩ =
    (.error ⟨"Failed to decode field 'level': Read error: Buffer underflow: need 1 bytes, have 0"⟩,
      ⟨[7], 1⟩) := by
  have hr : (ByteBufferReader.mk [7] 1).Valid := ⟨by decide, by decide⟩
  refine (decode_error_iff .x86 rfl hr 1 _ _).mpr (.inr ⟨_, 1, find_probe, rfl, 0, _, rfl, ?_, ?_⟩)
  · exact .underflow trivial (by decide) (by decide)
  · exact fun j _ hj => absurd hj j.not_lt_zero

end IONet.Codec
