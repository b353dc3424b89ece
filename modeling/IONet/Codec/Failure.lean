import IONet.Codec.Lenient
import IONet.Codec.Options

namespace IONet.Codec

open IONet.Core Lib.Slots Decoder

variable {host : Host} {d : Decoder} {order : ByteOrder} {f : Field} {fs : List Field}
  {r r' : ByteBufferReader}

def Unreadable (r : ByteBufferReader) (f : Field) (p : Nat) : Prop :=
  ¬Sized f ∨ r.size < p + wireWidth f

def ReadAt (host : Host) (d : Decoder) (order : ByteOrder) (r : ByteBufferReader) (f : Field)
    (p : Nat) (passed : Bool) : Prop :=
  ¬Unreadable r f p ∧ ∃ raw, (typedRead host f order ⟨r.data, p⟩).1 = .ok raw ∧
    passes d f (present host d f raw) = passed

/-- The loop gives up on the field that it cannot read, before its bytes, or on
the one that violates its bounds, behind them. -/
def GivesUpAt (host : Host) (d : Decoder) (order : ByteOrder) (r r' : ByteBufferReader) (f : Field)
    (p : Nat) : Prop :=
  (Unreadable r f p ∧ r' = { r with pos := p }) ∨
    (ReadAt host d order r f p false ∧ r' = { r with pos := p + wireWidth f })

/-- All fields before `k` are read, and the loop gives up on field `k`. -/
def Stops (host : Host) (d : Decoder) (order : ByteOrder) (fs : List Field)
    (r r' : ByteBufferReader) : Prop :=
  ∃ k f, fs[k]? = some f ∧
    (∀ j g, j < k → fs[j]? = some g → ReadAt host d order r g (r.pos + offset fs j) true) ∧
    GivesUpAt host d order r r' f (r.pos + offset fs k)

theorem offset_cons_succ (f : Field) (fs : List Field) (k : Nat) :
    offset (f :: fs) (k + 1) = wireWidth f + offset fs k := by simp [offset]

theorem unreadable_of_read (hr : r.Valid)
    (h : (fieldSlot host d order f).read r.data r.pos = none) : Unreadable r f r.pos := by
  by_contra hnot
  rw [Unreadable, not_or, not_not, not_lt] at hnot
  have hsome : ((fieldSlot host d order f).read r.data r.pos).isSome :=
    isSome_read_fieldSlot hr order hnot.1 hnot.2
  rw [h] at hsome
  cases hsome

theorem readAt_of_read (hr : r.Valid) {field : DecodedField}
    (h : (fieldSlot host d order f).read r.data r.pos = some field) :
    ReadAt host d order r f r.pos (passes d f field) := by
  obtain ⟨hsized, hfit, raw, hraw, rfl⟩ := (read_at_iff hr).mp h
  refine ⟨?_, raw, hraw, rfl⟩
  rw [Unreadable, not_or, not_not, not_lt]
  exact ⟨hsized, hfit⟩

theorem stops_cons {field : DecodedField} (hr : r.Valid)
    (hread : (fieldSlot host d order f).read r.data r.pos = some field)
    (hpass : passes d f field = true)
    (h : Stops host d order fs { r with pos := r.pos + wireWidth f } r') :
    Stops host d order (f :: fs) r r' := by
  obtain ⟨k, g, hk, hbefore, hlast⟩ := h
  rw [Nat.add_assoc, ← offset_cons_succ] at hlast
  refine ⟨k + 1, g, hk, fun j g' hj hg' => ?_, hlast⟩
  cases j with
  | zero =>
    cases hg'
    exact hpass ▸ readAt_of_read hr hread
  | succ j =>
    have hread' := hbefore j g' (by omega) hg'
    rwa [Nat.add_assoc, ← offset_cons_succ] at hread'

theorem stops_of_decodeFields (hstop : d.options.stopOnError = true) {result : DecodedPacket}
    {e : Error} (hr : r.Valid) (h : decodeFields host d order fs result r = (.error e, r')) :
    Stops host d order fs r r' := by
  induction fs generalizing result r with
  | nil => cases h
  | cons f fs ih =>
    have hfirst : GivesUpAt host d order r r' f r.pos → Stops host d order (f :: fs) r r' :=
      fun hgives => ⟨0, f, rfl, fun j _ hj => absurd hj (Nat.not_lt_zero j), hgives⟩
    cases hread : (fieldSlot host d order f).read r.data r.pos with
    | none =>
      obtain ⟨message, hmessage⟩ := decodeField_of_read_none hr hread
      simp only [decodeFields, hmessage, hstop, if_true] at h
      cases h
      exact hfirst (.inl ⟨unreadable_of_read hr hread, rfl⟩)
    | some field =>
      have hcheck := check_eq_ok_iff (d := d) f field
      simp only [decodeFields, decodeField_of_read hr hread, hstop, if_true] at h
      cases hpass : passes d f field with
      | false =>
        rw [hpass] at hcheck
        split at h
        · cases h
          exact hfirst (.inr ⟨hpass ▸ readAt_of_read hr hread, rfl⟩)
        · rename_i hok
          exact absurd (hcheck.mp hok) Bool.false_ne_true
      | true =>
        rw [hcheck.mpr hpass] at h
        exact stops_cons hr hread hpass (ih (hr.at (read_le hread)) h)

theorem pos_eq_iff_of_stops (h : Stops host d order fs r r') :
    r' = r ↔ ∀ f, fs.head? = some f → Unreadable r f r.pos := by
  obtain ⟨k, g, hk, hbefore, hgives⟩ := h
  have hwidth : ∀ {f : Field} {p : Nat}, ¬Unreadable r f p → 0 < wireWidth f := by
    intro f p hread
    rw [Unreadable, not_or, not_not] at hread
    exact (sized_iff_wireWidth_pos f).mp hread.1
  cases fs with
  | nil => simp at hk
  | cons f fs =>
    have hoffset : offset (f :: fs) 0 = 0 := rfl
    simp only [List.head?_cons, Option.some.injEq, forall_eq']
    cases k with
    | zero =>
      cases hk
      rw [hoffset, Nat.add_zero] at hgives
      rcases hgives with ⟨hun, rfl⟩ | ⟨⟨hread, -⟩, rfl⟩
      · exact iff_of_true rfl hun
      · refine iff_of_false (fun heq => ?_) hread
        have hpos := congrArg ByteBufferReader.pos heq
        have := hwidth hread
        simp only at hpos
        omega
    | succ k =>
      have hread := (hbefore 0 f (Nat.succ_pos k) rfl).1
      rw [hoffset, Nat.add_zero] at hread
      have hfirst := hwidth hread
      refine iff_of_false (fun heq => ?_) hread
      have hpos := congrArg ByteBufferReader.pos heq
      rcases hgives with ⟨-, rfl⟩ | ⟨-, rfl⟩ <;> simp only [offset_cons_succ] at hpos <;> omega

/-- A failed decoding gives nothing back: the reader stands at the field that
could not be read, or behind the one that violated its bounds. -/
theorem decode_error_position (host : Host) {id : UInt32} (hr : r.Valid) {e : Error}
    (h : decode host d id r = (.error e, r')) :
    ((d.schema.findPacketById id = none ∧ r' = r) ∨ ∃ p, d.schema.findPacketById id = some p ∧
      Stops host d d.schema.byteOrder p.fields r r') ∧
    (r' = r ↔ ∀ p f, d.schema.findPacketById id = some p → p.fields.head? = some f →
      Unreadable r f r.pos) := by
  cases hid : d.schema.findPacketById id with
  | none =>
    simp only [decode, hid, Prod.mk.injEq] at h
    simp [h.2]
  | some p =>
    have hstops : Stops host d d.schema.byteOrder p.fields r r' := by
      cases hstop : d.options.stopOnError with
      | true =>
        rw [decode_of_find hid] at h
        exact stops_of_decodeFields hstop hr h
      | false =>
        rw [decode_lenient host hid hstop] at h
        cases h
    refine ⟨.inr ⟨p, rfl, hstops⟩, ?_⟩
    rw [pos_eq_iff_of_stops hstops]
    constructor
    · rintro hun p' f ⟨⟩ hf
      exact hun f hf
    · exact fun hun f hf => hun p f rfl hf

def twoBytes : Decoder where
  schema := ({} : Schema).addPacket
    { id := 1, name := "twoBytes", fields := [{ name := "first" }, { name := "second" }] }

theorem decode_error_position_twoBytes : ∃ e r',
    decode .x86 twoBytes 1 ⟨[7], 0⟩ = (.error e, r') ∧
      Stops .x86 twoBytes .big [{ name := "first" }, { name := "second" }] ⟨[7], 0⟩ r' ∧
      r' ≠ ⟨[7], 0⟩ := by
  have hr : (ByteBufferReader.mk [7] 0).Valid := .mk_zero (by decide)
  have hdecode : ∃ e r', decode .x86 twoBytes 1 ⟨[7], 0⟩ = (.error e, r') := ⟨_, _, rfl⟩
  obtain ⟨e, r', h⟩ := hdecode
  obtain ⟨hwhere, hsame⟩ := decode_error_position .x86 hr h
  refine ⟨e, r', h, ?_, fun heq => ?_⟩
  · obtain ⟨hunknown, -⟩ | ⟨p, ⟨⟩, hstops⟩ := hwhere
    · cases hunknown
    · exact hstops
  · rcases hsame.mp heq _ _ rfl rfl with hsize | hshort
    · exact hsize trivial
    · exact absurd hshort (by decide)

theorem twoBytes_consumed :
    ∃ e r', decode .x86 twoBytes 1 ⟨[7], 0⟩ = (.error e, r') ∧ r'.position ≠ 0 :=
  ⟨_, ⟨[7], 1⟩, rfl, by decide⟩

end IONet.Codec
