import IONet.Codec.Options
import Mathlib.Data.List.Forall2
import Mathlib.Data.List.ReduceOption

namespace IONet.Codec

open IONet.Core Decoder

variable {host : Host} {d : Decoder}

def rawIndex : DataType → Nat
  | .int8 | .int16 | .int32 | .int64 => 1
  | .uint8 | .uint16 | .uint32 | .uint64 | .bitfield => 2
  | .float32 | .float64 => 3
  | .string => 4
  | .bytes => 5

theorem index_decodeRaw {f : Field} {order : ByteOrder} {r : ByteBufferReader}
    {raw : Value × Option DecodedBitfield} (h : (decodeRaw host f order r).1 = .ok raw) :
    raw.1.index = rawIndex f.type := by
  unfold decodeRaw at h
  cases htype : f.type with
  | string =>
    rw [htype] at h
    obtain ⟨a, -, rfl⟩ := ReadM.ok_of_map (ok_of_caught (ok_of_requiresSize h))
    rfl
  | bytes =>
    rw [htype] at h
    obtain ⟨a, -, rfl⟩ := ReadM.ok_of_map (ok_of_caught (ok_of_requiresSize h))
    rfl
  | _ =>
    rw [htype] at h
    obtain ⟨a, -, rfl⟩ := ReadM.ok_of_map (ok_of_caught h)
    rfl

structure Presents (d : Decoder) (f : Field) (field : DecodedField) : Prop where
  name : field.name = f.name
  type : field.type = f.type
  rawIndex : field.rawValue.index = rawIndex f.type
  scaled : field.scaledValue = d.scaledValue f field.rawValue

theorem presents_of_decodeField {f : Field} {order : ByteOrder} {r : ByteBufferReader}
    {field : DecodedField} (h : (decodeField host d f order r).1 = .ok field) :
    Presents d f field := by
  obtain ⟨raw, hraw, rfl⟩ := ReadM.ok_of_map h
  exact ⟨rfl, rfl, index_decodeRaw hraw, rfl⟩

def scaledNumber (s : Scaling) (raw : Double) : Double := (raw.mul s.scale).add s.offset

section

variable {f : Field} {s : Scaling} {field : DecodedField}

theorem numeric_of_index {v : Value} (hlo : 1 ≤ v.index) (hhi : v.index ≤ 3) :
    ∃ x, v.numeric = some x := by
  cases v <;> simp_all [Value.index, Value.numeric]

theorem numeric_rawValue (h : Presents d f field) (hstring : f.type ≠ .string)
    (hbytes : f.type ≠ .bytes) : ∃ x, field.rawValue.numeric = some x := by
  have hindex := h.rawIndex
  apply numeric_of_index <;> rw [hindex] <;> cases htype : f.type <;> simp_all [rawIndex]

theorem scaledValue_eq (h : Presents d f field) (happly : d.options.applyScaling = true)
    (hs : f.scaling = some s) {x : Double} (hx : field.rawValue.numeric = some x) :
    field.scaledValue = .double (scaledNumber s x) := by
  rw [h.scaled, scaledValue, happly, hs]
  simp [applyScaling, hx, scaledNumber]

theorem rawIndex_ne_three_iff (t : DataType) : rawIndex t ≠ 3 ↔ t ≠ .float32 ∧ t ≠ .float64 := by
  cases t <;> simp [rawIndex]

theorem value_numeric_iff (h : Presents d f field) (happly : d.options.applyScaling = true)
    (hs : f.scaling = some s) {x : Double} (hx : field.rawValue.numeric = some x) :
    (field.value = .double (scaledNumber s x) ↔
      (f.type ≠ .float32 ∧ f.type ≠ .float64) ∨ scaledNumber s x = x) ∧
    (field.value.numeric = some (scaledNumber s x) ↔
      (f.type ≠ .float32 ∧ f.type ≠ .float64) ∨ scaledNumber s x = x) := by
  have hscaled := scaledValue_eq h happly hs hx
  rw [← rawIndex_ne_three_iff, ← h.rawIndex]
  by_cases hfloat : field.rawValue.index = 3
  · have hraw : field.rawValue = .double x := by
      cases hv : field.rawValue <;> simp_all [Value.index, Value.numeric]
    have hvalue : field.value = .double x := by
      simp [DecodedField.value, DecodedField.hasScaling, hscaled, hraw, Value.index]
    simp [hvalue, hraw, Value.index, Value.numeric, eq_comm]
  · have hvalue : field.value = .double (scaledNumber s x) := by
      have hindex : (Value.double (scaledNumber s x)).index = 3 := rfl
      simp [DecodedField.value, DecodedField.hasScaling, hscaled, hindex, Ne.symm hfloat]
    simp [hvalue, hfloat, Value.numeric]

end

theorem presents_attempts (d : Decoder) (order : ByteOrder) (fs : List Field)
    (r : ByteBufferReader) :
    List.Forall₂ (fun f o => ∀ field, o = some field → Presents d f field) fs
      ((attempts host order fs r).1.map (taken d)) := by
  induction fs generalizing r with
  | nil => exact .nil
  | cons f fs ih =>
    refine .cons (fun field hfield => ?_) (ih _)
    have hok : (decodeField host d f order r).1 = .ok field := by
      rw [decodeField_eq]
      cases hraw : (decodeRaw host f order r).1 with
      | error message =>
        rw [hraw] at hfield
        cases hfield
      | ok raw =>
        rw [hraw] at hfield
        cases hfield
        rfl
    exact presents_of_decodeField hok

theorem decodeFields_results {order : ByteOrder} {fs : List Field} {result packet : DecodedPacket}
    {r r' : ByteBufferReader}
    (h : decodeFields host d order fs result r = (.ok packet, r')) :
    ∃ results, packet.fields = result.fields ++ results.reduceOption ∧
      List.Forall₂ (fun f o => ∀ field, o = some field → Presents d f field) fs results := by
  refine ⟨(attempts host order fs r).1.map (taken d), ?_, presents_attempts d order fs r⟩
  rw [packet_of_decodeFields h, DecodedPacket.fields_foldl_addField, List.reduceOption,
    List.filterMap_map]
  rfl

theorem result_of_unique {fs : List Field} {results : List (Option DecodedField)}
    (hresults : List.Forall₂ (fun f o => ∀ field, o = some field → Presents d f field) fs results)
    {j : Nat} {f : Field} (hj : fs[j]? = some f)
    (hunique : ∀ k g, fs[k]? = some g → g.name = f.name → k = j) {field : DecodedField}
    (hfield : some field ∈ results) (hname : field.name = f.name) :
    results[j]? = some (some field) ∧ Presents d f field := by
  obtain ⟨k, hk⟩ := List.mem_iff_getElem?.mp hfield
  have hlt : k < fs.length := by
    rw [hresults.length_eq]
    exact (List.getElem?_eq_some_iff.mp hk).1
  have hkf : fs[k]? = some fs[k] := List.getElem?_eq_getElem hlt
  have hpresents : Presents d fs[k] field :=
    hresults.get hlt _ _ (List.getElem?_eq_some_iff.mp hk).2
  have hkj := hunique k _ hkf (hpresents.name.symm.trans hname)
  subst hkj
  rw [hj] at hkf
  cases hkf
  exact ⟨hk, hpresents⟩

theorem getDouble_of_unique {id : UInt32} {p : Packet}
    (hid : d.schema.findPacketById id = some p) {j : Nat} {f : Field}
    (hj : p.fields[j]? = some f)
    (hunique : ∀ k g, p.fields[k]? = some g → g.name = f.name → k = j)
    {r r' : ByteBufferReader} {packet : DecodedPacket}
    (h : decode host d id r = (.ok packet, r')) {field : DecodedField}
    (hfield : field ∈ packet.fields) (hname : field.name = f.name) :
    Presents d f field ∧ packet.getDouble f.name = field.asDouble := by
  simp only [decode, hid] at h
  obtain ⟨results, hfields, hresults⟩ := decodeFields_results h
  rw [List.nil_append] at hfields
  have hmem : ∀ g ∈ packet.fields, some g ∈ results := by
    intro g hg
    rwa [hfields, List.reduceOption_mem_iff] at hg
  obtain ⟨hresult, hpresents⟩ := result_of_unique hresults hj hunique (hmem _ hfield) hname
  have hsame : ∀ g ∈ packet.fields, g.name = field.name → g = field := by
    intro g hg hgname
    have hg' := (result_of_unique hresults hj hunique (hmem g hg) (hgname.trans hname)).1
    rw [hresult] at hg'
    exact (Option.some.inj (Option.some.inj hg')).symm
  rw [← hname, DecodedPacket.getDouble, DecodedPacket.field_of_mem hfield hsame]
  exact ⟨hpresents, rfl⟩

/-- Every access shows the scaled number, except that of a `float` or `double`
on the wire the raw number is shown: both stored values are then doubles. -/
theorem scaled_seen_iff (host : Host) (happly : d.options.applyScaling = true) {f : Field}
    {s : Scaling} (hs : f.scaling = some s) (hstring : f.type ≠ .string)
    (hbytes : f.type ≠ .bytes) :
    (∀ order r field, (decodeField host d f order r).1 = .ok field →
      ∃ x, field.rawValue.numeric = some x ∧
        (field.value = .double (scaledNumber s x) ∧ field.asDouble = some (scaledNumber s x) ∧
            checkedNumber field = some (scaledNumber s x) ↔
          (f.type ≠ .float32 ∧ f.type ≠ .float64) ∨ scaledNumber s x = x)) ∧
    (∀ id p j, d.schema.findPacketById id = some p → p.fields[j]? = some f →
      (∀ (k : Nat) (g : Field), p.fields[k]? = some g → g.name = f.name → k = j) →
      ∀ r packet r', decode host d id r = (.ok packet, r') →
        ∀ field ∈ packet.fields, field.name = f.name →
          ∃ x, field.rawValue.numeric = some x ∧
            (packet.getDouble f.name = some (scaledNumber s x) ↔
              (f.type ≠ .float32 ∧ f.type ≠ .float64) ∨ scaledNumber s x = x)) := by
  constructor
  · intro order r field h
    have hpresents := presents_of_decodeField h
    obtain ⟨x, hx⟩ := numeric_rawValue hpresents hstring hbytes
    obtain ⟨hvalue, hnumeric⟩ := value_numeric_iff hpresents happly hs hx
    refine ⟨x, hx, ⟨fun hall => hvalue.mp hall.1, fun hcond => ?_⟩⟩
    exact ⟨hvalue.mpr hcond, hnumeric.mpr hcond, hnumeric.mpr hcond⟩
  · intro id p j hid hj hunique r packet r' h field hfield hname
    obtain ⟨hpresents, hget⟩ := getDouble_of_unique hid hj hunique h hfield hname
    obtain ⟨x, hx⟩ := numeric_rawValue hpresents hstring hbytes
    rw [hget]
    exact ⟨x, hx, (value_numeric_iff hpresents happly hs hx).2⟩

def ratio : Field where
  name := "ratio"
  type := .float32
  scaling := some { scale := Double.ofInt 2 }

def level : Field where
  name := "level"
  type := .uint8
  scaling := some { scale := Double.ofInt 2 }

theorem scaled_seen_iff_level :
    ∃ field, (decodeField .x86 { schema := {} } level .big ⟨[7], 0⟩).1 = .ok field ∧
      field.asDouble = some (scaledNumber { scale := Double.ofInt 2 } (Double.ofInt 7)) := by
  have hseen := scaled_seen_iff (d := { schema := {} }) .x86 rfl (f := level) rfl nofun nofun
  refine ⟨_, rfl, ?_⟩
  obtain ⟨x, hx, hiff⟩ := hseen.1 .big ⟨[7], 0⟩ _ rfl
  cases hx
  exact (hiff.mpr (.inl ⟨nofun, nofun⟩)).2.1

/-- The wire holds 1.5 with a scale of 2, and 1.5 is what is shown. -/
theorem ratio_seen_raw :
    ∃ field, (decodeField .s390x { schema := {} } ratio .big ⟨[0x3F, 0xC0, 0, 0], 0⟩).1 =
        .ok field ∧
      field.rawValue.numeric = some (Double.ofRat (3 / 2)) ∧
      field.value = .double (Double.ofRat (3 / 2)) ∧
      field.value ≠ .double (scaledNumber { scale := Double.ofInt 2 } (Double.ofRat (3 / 2))) := by
  refine ⟨_, rfl, ?_, ?_, ?_⟩ <;> decide +kernel

end IONet.Codec
