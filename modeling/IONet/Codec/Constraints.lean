import IONet.Codec.Scaling
import IONet.Codec.Streaming

namespace IONet.Codec

open IONet.Core Decoder

variable {d : Decoder}

/-- A numeric value without the conversion to `double`. -/
def exactNumber : Value → Option Number
  | .int64 n => some (.rat n.toInt)
  | .uint64 n => some (.rat n.toNat)
  | .double x => some x.val
  | _ => none

def Within (c : Constraints) (v : Number) : Prop :=
  (∀ lo, c.min = some lo → lo.val.le v) ∧ ∀ hi, c.max = some hi → v.le hi.val

/-- What is shown of a raw value: a scaled integer is a `double`, and a raw
`double` hides its scaled one. -/
def shown (d : Decoder) (f : Field) (raw : Value) : Value :=
  match d.options.applyScaling, f.scaling, raw with
  | true, some s, .int64 n => .double (scaledNumber s (Double.ofInt n.toInt))
  | true, some s, .uint64 n => .double (scaledNumber s (Double.ofInt n.toNat))
  | _, _, _ => raw

theorem value_present (host : Host) (d : Decoder) (f : Field) (raw : Value) :
    (present host d f raw).value = shown d f raw := by
  unfold DecodedField.value DecodedField.hasScaling present decodedField scaledValue shown
  cases d.options.applyScaling with
  | false => simp
  | true =>
    cases f.scaling with
    | none => simp
    | some s => cases raw <;> simp [applyScaling, Value.numeric, Value.index, scaledNumber]

theorem validateConstraints_eq_ok_iff {field : DecodedField} {f : Field} :
    validateConstraints field f = .ok () ↔ ∀ x, field.value.numeric = some x →
      (∀ lo, f.constraints.min = some lo → ¬x.lt lo) ∧
        ∀ hi, f.constraints.max = some hi → ¬hi.lt x := by
  unfold validateConstraints checkedNumber
  cases field.value.numeric with
  | none => simp
  | some x =>
    have hmin : f.constraints.min.filter (x.lt ·) = none ↔
        ∀ lo, f.constraints.min = some lo → ¬x.lt lo := by
      simp [Option.filter_eq_none_iff]
    have hmax : f.constraints.max.filter (·.lt x) = none ↔
        ∀ hi, f.constraints.max = some hi → ¬hi.lt x := by
      simp [Option.filter_eq_none_iff]
    simp only [Option.some.injEq, forall_eq', ← hmin, ← hmax]
    cases f.constraints.min.filter (x.lt ·) with
    | some lo => simp
    | none => cases f.constraints.max.filter (·.lt x) <;> simp

/-- What can be told apart after the conversion: no NaN takes part, and no
integer that lies beyond a bound is rounded onto it. -/
def Checkable (c : Constraints) (w : Value) : Prop :=
  ∀ v x, exactNumber w = some v → w.numeric = some x →
    (∀ lo, c.min = some lo → v ≠ .nan ∧ lo.val ≠ .nan ∧ ¬(v.lt lo.val ∧ x.val = lo.val)) ∧
    ∀ hi, c.max = some hi → v ≠ .nan ∧ hi.val ≠ .nan ∧ ¬(hi.val.lt v ∧ x.val = hi.val)

theorem numeric_of_exact {w : Value} {v : Number} (h : exactNumber w = some v) :
    ∃ x, w.numeric = some x ∧ (x.val = v ∨ ∃ q, v = .rat q ∧ x = Double.ofRat q) := by
  cases w with
  | int64 n =>
    cases h
    exact ⟨_, rfl, .inr ⟨_, rfl, rfl⟩⟩
  | uint64 n =>
    cases h
    exact ⟨_, rfl, .inr ⟨_, rfl, by simp [Double.ofInt]⟩⟩
  | double x =>
    cases h
    exact ⟨x, rfl, .inl rfl⟩
  | _ => cases h

section

variable {v : Number} {x : Double}

theorem min_le_iff (hx : x.val = v ∨ ∃ q, v = .rat q ∧ x = Double.ofRat q) {lo : Double}
    (hpass : ¬x.lt lo) :
    lo.val.le v ↔ v ≠ .nan ∧ lo.val ≠ .nan ∧ ¬(v.lt lo.val ∧ x.val = lo.val) := by
  by_cases hv : v = .nan
  · simp [hv]
  by_cases hlo : lo.val = .nan
  · simp [hlo]
  rw [Number.le_iff_not_lt hlo hv]
  have honto : v.lt lo.val → x.val = lo.val := by
    intro hlt
    rcases hx with rfl | ⟨q, rfl, rfl⟩
    · exact absurd hlt hpass
    · exact Double.val_ofRat_of_lt hlt hpass
  exact ⟨fun h => ⟨hv, hlo, fun h' => h h'.1⟩, fun h hlt => h.2.2 ⟨hlt, honto hlt⟩⟩

theorem le_max_iff (hx : x.val = v ∨ ∃ q, v = .rat q ∧ x = Double.ofRat q) {hi : Double}
    (hpass : ¬hi.lt x) :
    v.le hi.val ↔ v ≠ .nan ∧ hi.val ≠ .nan ∧ ¬(hi.val.lt v ∧ x.val = hi.val) := by
  by_cases hv : v = .nan
  · simp [hv]
  by_cases hhi : hi.val = .nan
  · simp [hhi]
  rw [Number.le_iff_not_lt hv hhi]
  have honto : hi.val.lt v → x.val = hi.val := by
    intro hlt
    rcases hx with rfl | ⟨q, rfl, rfl⟩
    · exact absurd hlt hpass
    · exact Double.val_ofRat_of_gt hlt hpass
  exact ⟨fun h => ⟨hv, hhi, fun h' => h h'.1⟩, fun h hlt => h.2.2 ⟨hlt, honto hlt⟩⟩

end

theorem within_iff_checkable {field : DecodedField} {f : Field}
    (h : validateConstraints field f = .ok ()) :
    (∀ v, exactNumber field.value = some v → Within f.constraints v) ↔
      Checkable f.constraints field.value := by
  rw [validateConstraints_eq_ok_iff] at h
  constructor
  · intro hwithin v x hv hx
    obtain ⟨x', hx', hrel⟩ := numeric_of_exact hv
    cases hx.symm.trans hx'
    obtain ⟨hmin, hmax⟩ := h x hx
    obtain ⟨hlo, hhi⟩ := hwithin v hv
    exact ⟨fun lo hb => (min_le_iff hrel (hmin lo hb)).mp (hlo lo hb),
      fun hi hb => (le_max_iff hrel (hmax hi hb)).mp (hhi hi hb)⟩
  · intro hcheck v hv
    obtain ⟨x, hx, hrel⟩ := numeric_of_exact hv
    obtain ⟨hmin, hmax⟩ := h x hx
    obtain ⟨hlo, hhi⟩ := hcheck v x hv hx
    exact ⟨fun lo hb => (min_le_iff hrel (hmin lo hb)).mpr (hlo lo hb),
      fun hi hb => (le_max_iff hrel (hmax hi hb)).mpr (hhi hi hb)⟩

def Sound (p : Packet) (packet : DecodedPacket) : Prop :=
  ∀ (i : Nat) (f : Field) (field : DecodedField), p.fields[i]? = some f →
    packet.fields[i]? = some field → ∀ v, exactNumber field.value = some v → Within f.constraints v

/-- A strict decoding that validates is sound exactly when what is shown of
every value on the wire can be checked. -/
theorem decode_sound_iff (host : Host) (hstop : d.options.stopOnError = true)
    (hvalidate : d.options.validateConstraints = true) {id : UInt32} {p : Packet}
    (hid : d.schema.findPacketById id = some p) {r : ByteBufferReader} (hr : r.Valid)
    {packet : DecodedPacket} {r' : ByteBufferReader} (h : decode host d id r = (.ok packet, r')) :
    Sound p packet ↔ ∀ (i : Nat) (f : Field) (raw : Value), p.fields[i]? = some f →
      (typedRead host f d.schema.byteOrder ⟨r.data, r.pos + offset p.fields i⟩).1 = .ok raw →
        Checkable f.constraints (shown d f raw) := by
  obtain ⟨-, hfields⟩ := decode_fields hstop hid hr h
  have hpass : ∀ {f : Field} {raw : Value}, passes d f (present host d f raw) = true →
      validateConstraints (present host d f raw) f = .ok () := by
    intro f raw hp
    have hcheck := (check_eq_ok_iff f (present host d f raw)).mpr hp
    rwa [hvalidate, if_pos rfl] at hcheck
  constructor
  · intro hsound i f raw hi hraw
    obtain ⟨raw', hfield, hraw', hp⟩ := hfields i f hi
    cases hraw.symm.trans hraw'
    rw [← value_present host]
    exact (within_iff_checkable (hpass hp)).mp (hsound i f _ hi hfield)
  · intro hcheck i f field hi hfield
    obtain ⟨raw, hfield', hraw, hp⟩ := hfields i f hi
    cases hfield.symm.trans hfield'
    refine (within_iff_checkable (hpass hp)).mpr ?_
    rw [value_present host]
    exact hcheck i f raw hi hraw

def gaugeField : Field where
  name := "x"
  type := .float64
  constraints := { min := some (Double.ofInt 0), max := some (Double.ofInt 10) }

def gauge : Packet where
  id := 1
  name := "gauge"
  fields := [gaugeField]

def gaugeDecoder : Decoder where
  schema := ({} : Schema).addPacket gauge

theorem find_gauge : gaugeDecoder.schema.findPacketById 1 = some gauge := rfl

def gaugeDecoded (x : Double) : DecodedField where
  name := "x"
  type := .float64
  rawValue := .double x
  scaledValue := .double x
  unit := ""
  bitfield := none

theorem decode_gauge {b : List UInt8} {x : Double}
    (hfield : decodeField .s390x gaugeDecoder gaugeField .big ⟨b, 0⟩ =
      (.ok (gaugeDecoded x), ⟨b, 8⟩))
    (hcheck : validateConstraints (gaugeDecoded x) gaugeField = .ok ()) :
    decode .s390x gaugeDecoder 1 ⟨b, 0⟩ =
      (.ok (({ packetId := 1, packetName := "gauge" } : DecodedPacket).addField (gaugeDecoded x)),
        ⟨b, 8⟩) := by
  have horder : gaugeDecoder.schema.byteOrder = .big := rfl
  simp only [decode_of_find find_gauge, gauge, horder, decodeFields, hfield, hcheck, ite_self]

theorem decode_sound_iff_gauge :
    ∃ packet r', decode .s390x gaugeDecoder 1 ⟨[0x3F, 0xF8, 0, 0, 0, 0, 0, 0], 0⟩ =
      (.ok packet, r') ∧ Sound gauge packet := by
  have hr : (ByteBufferReader.mk [0x3F, 0xF8, 0, 0, 0, 0, 0, 0] 0).Valid := .mk_zero (by decide)
  have h := decode_gauge (b := [0x3F, 0xF8, 0, 0, 0, 0, 0, 0])
    (x := Double.ofBits64 0x3FF8000000000000) rfl (by decide +kernel)
  refine ⟨_, _, h, (decode_sound_iff .s390x rfl rfl find_gauge hr h).mpr ?_⟩
  intro i f raw hi hraw
  cases i with
  | succ i => simp [gauge] at hi
  | zero =>
    cases hi
    have heq : Value.double (Double.ofBits64 0x3FF8000000000000) = raw := Except.ok.inj hraw
    subst heq
    rintro v x ⟨⟩ ⟨⟩
    constructor
    · rintro lo ⟨⟩
      decide +kernel
    · rintro hi ⟨⟩
      decide +kernel

/-- The bytes of a NaN: neither comparison rejects it. -/
theorem nan_passes :
    ∃ packet, decode .s390x gaugeDecoder 1 ⟨[0x7F, 0xF8, 0, 0, 0, 0, 0, 0], 0⟩ =
      (.ok packet, ⟨[0x7F, 0xF8, 0, 0, 0, 0, 0, 0], 8⟩) ∧ ¬Sound gauge packet := by
  have h := decode_gauge (b := [0x7F, 0xF8, 0, 0, 0, 0, 0, 0])
    (x := Double.ofBits64 0x7FF8000000000000) rfl (by decide +kernel)
  refine ⟨_, h, fun hsound => ?_⟩
  have hnan : exactNumber (gaugeDecoded (Double.ofBits64 0x7FF8000000000000)).value =
      some .nan := by
    decide +kernel
  have hmin := (hsound 0 _ _ rfl rfl .nan hnan).1 (Double.ofInt 0) rfl
  simp at hmin

end IONet.Codec
