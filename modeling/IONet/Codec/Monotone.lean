import IONet.Codec.Typed
import IONet.Codec.TypedAccess
import IONet.Core.DoubleOrder
import IONet.Schema.ScalingInverse

namespace IONet.Codec

open IONet.Core Decoder

variable {host : Host} {d : Decoder} {f : Field} {s : Scaling} {v v' w : Value} {m n : Number}
  {x y : Double}

def integerShown (d : Decoder) (f : Field) (k : Int) : Double :=
  match d.options.applyScaling, f.scaling with
  | true, some s => scaledNumber s (Double.ofInt k)
  | _, _ => Double.ofInt k

/-- What is shown of a raw value with the given exact number. -/
inductive Shows (d : Decoder) (f : Field) : Number → Double → Prop
  | integer {k : Int} (htype : isFloat f.type = false) (hk : |k| ≤ 2 ^ 64) :
      Shows d f (.rat k) (integerShown d f k)
  | float {x : Double} (htype : isFloat f.type = true) : Shows d f x.val x

theorem shown_int64 (k : Int64) :
    (shown d f (.int64 k)).numeric = some (integerShown d f k.toInt) := by
  unfold shown integerShown
  cases d.options.applyScaling <;> cases f.scaling <;> rfl

theorem shown_uint64 (k : UInt64) :
    (shown d f (.uint64 k)).numeric = some (integerShown d f k.toNat) := by
  unfold shown integerShown
  cases d.options.applyScaling <;> cases f.scaling <;> rfl

theorem shown_double (x : Double) : (shown d f (.double x)).numeric = some x := by
  unfold shown
  cases d.options.applyScaling <;> cases f.scaling <;> rfl

theorem shows_uint64 (htype : isFloat f.type = false) {k : UInt64}
    (hm : exactNumber (.uint64 k) = some m) (hx : (shown d f (.uint64 k)).numeric = some x) :
    Shows d f m x := by
  have hlt := k.toNat_lt
  rw [shown_uint64] at hx
  cases hm
  cases hx
  exact .integer (k := k.toNat) htype (by rw [abs_le]; omega)

theorem shows_of_inhabits (hv : Inhabits f v) (hm : exactNumber v = some m)
    (hx : (shown d f v).numeric = some x) : Shows d f m x := by
  cases hv with
  | @signed k htype hlo hhi =>
    have hge := k.le_toInt
    have hlt := k.toInt_lt
    rw [shown_int64] at hx
    cases hm
    cases hx
    refine .integer ?_ (by rw [abs_le]; omega)
    cases hf : f.type <;> simp_all [isSigned, isFloat]
  | unsigned htype hhi =>
    refine shows_uint64 ?_ hm hx
    cases hf : f.type <;> simp_all [isUnsigned, isFloat]
  | bitfield htype hhi => exact shows_uint64 (by rw [htype]; rfl) hm hx
  | float32 htype | float64 htype =>
    rw [shown_double] at hx
    cases hm
    cases hx
    exact .float (by rw [htype]; rfl)
  | string htype hlen hne => cases hm
  | bytes htype hlen hne => cases hm

theorem finite_ofInt {k : Int} (hk : |k| ≤ 2 ^ 64) : (Double.ofInt k).IsFinite := by
  have hrep : binary64.Representable ((1 : ℤ) * 2 ^ (64 : ℤ)) :=
    binary64.representable_of_abs_le (by decide) (by decide)
  have hbound : ((1 : ℤ) : ℚ) * 2 ^ (64 : ℤ) < 2 ^ 1024 := by
    rw [Int.cast_one, one_mul, show (64 : ℤ) = (64 : ℕ) from rfl, zpow_natCast]
    exact pow_lt_pow_right₀ (by norm_num) (by norm_num)
  rw [Double.ofInt, Double.isFinite_ofRat_iff]
  have hle : ∀ {l : Int}, l ≤ 2 ^ 64 → binary64.round l ≤ ((1 : ℤ) : ℚ) * 2 ^ (64 : ℤ) := by
    intro l hl
    refine binary64.round_le_of_representable hrep ?_
    rw [Int.cast_one, one_mul, show (64 : ℤ) = (64 : ℕ) from rfl, zpow_natCast]
    exact_mod_cast hl
  obtain ⟨hlo, hhi⟩ := abs_le.mp hk
  have hneg := hle (l := -k) (by omega)
  rw [Int.cast_neg, binary64.round_neg] at hneg
  exact (abs_le.mpr ⟨neg_le.mp hneg, hle hhi⟩).trans_lt hbound

theorem ofInt_mono {k l : Int} (hkl : k ≤ l) :
    (Double.ofInt k).val.le (Double.ofInt l).val = true :=
  Double.ofRat_mono (Int.cast_le.mpr hkl)

structure Linear (s : Scaling) (a b : ℚ) : Prop where
  scale : s.scale.val = .rat a
  offset : s.offset.val = .rat b

variable {a b : ℚ}

theorem scaledNumber_mono (h : Linear s a b) (ha : 0 ≤ a) {k l : Int} (hk : |k| ≤ 2 ^ 64)
    (hl : |l| ≤ 2 ^ 64) (hkl : k ≤ l) :
    (scaledNumber s (Double.ofInt k)).val.le (scaledNumber s (Double.ofInt l)).val = true := by
  obtain ⟨p, hp⟩ := finite_ofInt hk
  obtain ⟨q, hq⟩ := finite_ofInt hl
  have hle := ofInt_mono hkl
  rw [hp, hq] at hle
  exact Double.add_mono h.offset (Double.mul_mono hp hq h.scale ha (of_decide_eq_true hle))

theorem scaledNumber_anti (h : Linear s a b) (ha : a ≤ 0) {k l : Int} (hk : |k| ≤ 2 ^ 64)
    (hl : |l| ≤ 2 ^ 64) (hkl : k ≤ l) :
    (scaledNumber s (Double.ofInt l)).val.le (scaledNumber s (Double.ofInt k)).val = true := by
  obtain ⟨p, hp⟩ := finite_ofInt hk
  obtain ⟨q, hq⟩ := finite_ofInt hl
  have hle := ofInt_mono hkl
  rw [hp, hq] at hle
  exact Double.add_mono h.offset (Double.mul_anti hp hq h.scale ha (of_decide_eq_true hle))

theorem integerShown_of_unscaled (h : Unscaled d f) (k : Int) :
    integerShown d f k = Double.ofInt k := by
  unfold integerShown
  rcases h with h | h
  · rw [h]
  · rw [h]
    cases d.options.applyScaling <;> rfl

theorem integerShown_of_scaled (happly : d.options.applyScaling = true) (hs : f.scaling = some s)
    (k : Int) : integerShown d f k = scaledNumber s (Double.ofInt k) := by
  rw [integerShown, happly, hs]

def Rising (d : Decoder) (f : Field) : Prop :=
  Unscaled d f ∨ ∃ s a b, f.scaling = some s ∧ Linear s a b ∧ 0 ≤ a

def Falling (d : Decoder) (f : Field) : Prop :=
  d.options.applyScaling = true ∧ ∃ s a b, f.scaling = some s ∧ Linear s a b ∧ a ≤ 0

theorem integerShown_mono (h : Rising d f) {k l : Int} (hk : |k| ≤ 2 ^ 64) (hl : |l| ≤ 2 ^ 64)
    (hkl : k ≤ l) : (integerShown d f k).val.le (integerShown d f l).val = true := by
  by_cases hunscaled : Unscaled d f
  · rw [integerShown_of_unscaled hunscaled, integerShown_of_unscaled hunscaled]
    exact ofInt_mono hkl
  · obtain ⟨s, a, b, hs, hlinear, ha⟩ := h.resolve_left hunscaled
    have happly : d.options.applyScaling = true := by
      rw [← Bool.not_eq_false]
      exact fun hfalse => hunscaled (.inl hfalse)
    rw [integerShown_of_scaled happly hs, integerShown_of_scaled happly hs]
    exact scaledNumber_mono hlinear ha hk hl hkl

theorem integerShown_anti (h : Falling d f) {k l : Int} (hk : |k| ≤ 2 ^ 64) (hl : |l| ≤ 2 ^ 64)
    (hkl : k ≤ l) : (integerShown d f l).val.le (integerShown d f k).val = true := by
  obtain ⟨happly, s, a, b, hs, hlinear, ha⟩ := h
  rw [integerShown_of_scaled happly hs, integerShown_of_scaled happly hs]
  exact scaledNumber_anti hlinear ha hk hl hkl

theorem Shows.mono (h : isFloat f.type = true ∨ Rising d f) (hx : Shows d f m x)
    (hy : Shows d f n y) (hmn : m.le n = true) : x.val.le y.val = true := by
  cases hx with
  | float htype =>
    cases hy with
    | float htype' => exact hmn
    | integer htype' hl => simp [htype] at htype'
  | integer htype hk =>
    cases hy with
    | float htype' => simp [htype] at htype'
    | integer htype' hl =>
      have hrising := h.resolve_left (by simp [htype])
      exact integerShown_mono hrising hk hl (Int.cast_le.mp (of_decide_eq_true hmn))

theorem Shows.anti (hinteger : isFloat f.type = false) (h : Falling d f) (hx : Shows d f m x)
    (hy : Shows d f n y) (hmn : m.le n = true) : y.val.le x.val = true := by
  cases hx with
  | float htype => simp [hinteger] at htype
  | integer htype hk =>
    cases hy with
    | float htype' => simp [hinteger] at htype'
    | integer htype' hl =>
      exact integerShown_anti h hk hl (Int.cast_le.mp (of_decide_eq_true hmn))

def Tame (f : Field) : Prop := ∀ s, f.scaling = some s → ∃ a b, Linear s a b

theorem rising_or_falling (d : Decoder) (h : Tame f) : Rising d f ∨ Falling d f := by
  by_cases hunscaled : Unscaled d f
  · exact .inl (.inl hunscaled)
  · rw [Unscaled, not_or] at hunscaled
    obtain ⟨happly, hsome⟩ := hunscaled
    obtain ⟨s, hs⟩ := Option.ne_none_iff_exists'.mp hsome
    obtain ⟨a, b, hlinear⟩ := h s hs
    rcases le_total 0 a with ha | ha
    · exact .inl (.inr ⟨s, a, b, hs, hlinear, ha⟩)
    · exact .inr ⟨Bool.not_eq_false _ |>.mp happly, s, a, b, hs, hlinear, ha⟩

variable {order : ByteOrder} {r r' : ByteBufferReader} {field field' : DecodedField}

theorem exists_shows (host : Host) (d : Decoder) (h : Inhabits f v) (hm : exactNumber v = some m) :
    ∃ x, (present host d f v).value.numeric = some x ∧ Shows d f m x := by
  rw [value_present]
  have hsome : (shown d f v).numeric.isSome = true := by
    rw [isSome_numeric_shown]
    cases v <;> first | rfl | cases hm
  obtain ⟨x, hx⟩ := Option.isSome_iff_exists.mp hsome
  exact ⟨x, hx, shows_of_inhabits h hm hx⟩

theorem inhabits_of_decodeField (hr : r.Valid)
    (h : (decodeField host d f order r).1 = .ok field) :
    ∃ v, Inhabits f v ∧ field = present host d f v := by
  rcases decodeField_cases host d order f hr with ⟨message, h'⟩ | ⟨v, r', hv, -, h'⟩ <;>
    rw [h'] at h
  · cases h
  · cases h
    exact ⟨v, hv, rfl⟩

/-- Of two readings of a field the greater number on the wire is shown as the
greater one, or as the smaller one where the scaling turns the order round. -/
theorem decoded_order (host : Host) (hr : r.Valid) (hr' : r'.Valid)
    (h : (decodeField host d f order r).1 = .ok field)
    (h' : (decodeField host d f order r').1 = .ok field') (hm : exactNumber field.rawValue = some m)
    (hn : exactNumber field'.rawValue = some n) (hmn : m.le n = true) :
    ∃ x y, field.asDouble = some x ∧ field'.asDouble = some y ∧
      (isFloat f.type = true ∨ Rising d f → x.val.le y.val = true) ∧
      (isFloat f.type = false → Falling d f → y.val.le x.val = true) := by
  obtain ⟨v, hv, rfl⟩ := inhabits_of_decodeField hr h
  obtain ⟨v', hv', rfl⟩ := inhabits_of_decodeField hr' h'
  obtain ⟨x, hx, hshows⟩ := exists_shows host d hv hm
  obtain ⟨y, hy, hshows'⟩ := exists_shows host d hv' hn
  exact ⟨x, y, hx, hy, fun hrising => hshows.mono hrising hshows' hmn,
    fun hinteger hfalling => hshows.anti hinteger hfalling hshows' hmn⟩

theorem decode_level (n : UInt8) :
    (decodeField .x86 { schema := {} } level .big ⟨[n], 0⟩).1 =
      .ok (decodedField { schema := {} } level (.uint64 n.toUInt64, none)) := rfl

theorem decoded_order_level : ∃ field field' x y,
    (decodeField .x86 { schema := {} } level .big ⟨[7], 0⟩).1 = .ok field ∧
      (decodeField .x86 { schema := {} } level .big ⟨[9], 0⟩).1 = .ok field' ∧
      field.asDouble = some x ∧ field'.asDouble = some y ∧ x.val.le y.val = true := by
  have hr : (ByteBufferReader.mk [7] 0).Valid := .mk_zero (by decide)
  have hr' : (ByteBufferReader.mk [9] 0).Valid := .mk_zero (by decide)
  have hscale : Linear { scale := Double.ofInt 2 } 2 0 := ⟨by decide +kernel, by decide +kernel⟩
  have hrising : Rising { schema := {} } level := .inr ⟨_, 2, 0, rfl, hscale, by norm_num⟩
  obtain ⟨x, y, hx, hy, hmono, -⟩ := decoded_order .x86 hr hr' (decode_level 7) (decode_level 9)
    (m := .rat 7) (n := .rat 9) (by decide +kernel) (by decide +kernel) (by decide +kernel)
  exact ⟨_, _, x, y, decode_level 7, decode_level 9, hx, hy, hmono (.inr hrising)⟩

/-- The same value, or a number that lies between two others. -/
def Between (u v w : Value) : Prop :=
  v = u ∨ ∃ k m n, exactNumber u = some k ∧ exactNumber v = some m ∧ exactNumber w = some n ∧
    k.le m = true ∧ m.le n = true

theorem validate_between {x y z : Double} {field₁ field₂ field₃ : DecodedField}
    (hx : field₁.value.numeric = some x) (hy : field₂.value.numeric = some y)
    (hz : field₃.value.numeric = some z) (hxy : x.val.le y.val = true) (hyz : y.val.le z.val = true)
    (hlo : validateConstraints field₁ f = .ok ()) (hhi : validateConstraints field₃ f = .ok ()) :
    validateConstraints field₂ f = .ok () := by
  rw [validateConstraints_eq_ok_iff] at hlo hhi ⊢
  intro y' hy'
  cases hy.symm.trans hy'
  refine ⟨fun lo hmin hlt => ?_, fun hi hmax hlt => ?_⟩
  · exact (hlo x hx).1 lo hmin (Number.lt_of_le_of_lt hxy hlt)
  · exact (hhi z hz).2 hi hmax (Number.lt_of_lt_of_le hlt hyz)

theorem violation_eq_none_iff : violation d f field = none ↔
    (d.options.validateConstraints = true → validateConstraints field f = .ok ()) := by
  unfold violation
  cases d.options.validateConstraints with
  | false => simp
  | true => cases validateConstraints field f <;> simp

theorem admits_between {u v w : Value} (hf : isInteger f.type = true ∨ f.type = .bitfield → Tame f)
    (hu : Admits host d f u) (hw : Admits host d f w) (hv : Inhabits f v) (h : Between u v w) :
    Admits host d f v := by
  rcases h with rfl | ⟨k, m, n, hk, hm, hn, hkm, hmn⟩
  · exact hu
  refine ⟨hv, fun hstop => violation_eq_none_iff.mpr fun hvalidate => ?_⟩
  have hlo := violation_eq_none_iff.mp (hu.2 hstop) hvalidate
  have hhi := violation_eq_none_iff.mp (hw.2 hstop) hvalidate
  obtain ⟨x, hx, hsx⟩ := exists_shows host d hu.1 hk
  obtain ⟨y, hy, hsy⟩ := exists_shows host d hv hm
  obtain ⟨z, hz, hsz⟩ := exists_shows host d hw.1 hn
  have hrising : (isFloat f.type = true ∨ Rising d f) ∨ isFloat f.type = false ∧ Falling d f := by
    cases htype : isFloat f.type with
    | true => exact .inl (.inl rfl)
    | false =>
      have hcounted : isNumeric f.type = true ∨ f.type = .bitfield :=
        (isSome_numeric_present host d hv).mp (Option.isSome_of_eq_some hy)
      rw [isNumeric, htype, Bool.or_false] at hcounted
      exact (rising_or_falling d (hf hcounted)).imp .inr fun hfalling => ⟨rfl, hfalling⟩
  rcases hrising with hrising | ⟨hinteger, hfalling⟩
  · exact validate_between hx hy hz (hsx.mono hrising hsy hkm) (hsy.mono hrising hsz hmn) hlo hhi
  · exact validate_between hz hy hx (hsy.anti hinteger hfalling hsz hmn)
      (hsx.anti hinteger hfalling hsy hkm) hhi hlo

theorem getElem?_presented {id : UInt32} {p : Packet} {us : List Value} {i : Nat}
    (hf : i < p.fields.length) (hu : i < us.length) :
    (presented host d id p us).fields[i]? = some (present host d p.fields[i] us[i]) := by
  rw [presented, DecodedPacket.fields_filled, List.getElem?_zipWith,
    List.getElem?_eq_getElem hf, List.getElem?_eq_getElem hu]

/-- Between two packets that strict decoding accepts it accepts every one that
its definitions allow. -/
theorem decode_convex (host : Host) (hstop : d.options.stopOnError = true) {id : UInt32}
    {p : Packet} (hid : d.schema.findPacketById id = some p)
    (htame : ∀ f ∈ p.fields, isInteger f.type = true ∨ f.type = .bitfield → Tame f)
    (hr : r.Valid) (hr' : r'.Valid) {lo hi : DecodedPacket} {q q' : ByteBufferReader}
    (hlo : decode host d id r = (.ok lo, q))
    (hhi : decode host d id r' = (.ok hi, q')) {vs : List Value}
    (hvs : List.Forall₂ Inhabits p.fields vs)
    (hbetween : ∀ (i : Nat) (a b : DecodedField) (v : Value), lo.fields[i]? = some a →
      hi.fields[i]? = some b → vs[i]? = some v → Between a.rawValue v b.rawValue) :
    ∃ r'' q'', r''.Valid ∧ decode host d id r'' = (.ok (presented host d id p vs), q'') := by
  simp only [decode_of_find hid] at hlo hhi ⊢
  have hrange := decodeFields_range host d.schema.byteOrder hstop p.fields
    { packetId := id, packetName := p.name }
  obtain ⟨hwidth, us, hus, rfl⟩ := (hrange lo).mp ⟨r, q, hr, hlo⟩
  obtain ⟨-, ws, hws, rfl⟩ := (hrange hi).mp ⟨r', q', hr', hhi⟩
  refine (hrange _).mpr ⟨hwidth, vs, ?_, rfl⟩
  refine List.forall₂_iff_get.mpr ⟨hvs.length_eq, fun i hf hv => ?_⟩
  have hu : i < us.length := by rwa [← hus.length_eq]
  have hw : i < ws.length := by rwa [← hws.length_eq]
  refine admits_between (htame _ (List.get_mem ..)) (hus.get hf hu) (hws.get hf hw)
    (hvs.get hf hv) ?_
  exact hbetween i _ _ _ (getElem?_presented hf hu) (getElem?_presented hf hw)
    (List.getElem?_eq_getElem hv)

def strictCapped : Decoder where
  schema := cappedDecoder.schema

theorem find_strictCapped : strictCapped.schema.findPacketById 1 = some capped := rfl

theorem decode_capped (level : UInt8) (hcheck : validateConstraints
      (present .x86 strictCapped cappedField (.uint64 level.toUInt64)) cappedField = .ok ()) :
    ∃ r q, r.Valid ∧ decode .x86 strictCapped 1 r =
      (.ok (presented .x86 strictCapped 1 capped [.uint64 level.toUInt64]), q) := by
  have hv : Inhabits cappedField (.uint64 level.toUInt64) :=
    .of_nat (k := 1) (.inl rfl) rfl (UInt8.toNat_toUInt64 level) level.toNat_lt
  exact (decodeFields_range .x86 .big rfl capped.fields _ _).mpr
    ⟨by decide, _, .cons ⟨hv, fun _ => violation_eq_none_iff.mpr fun _ => hcheck⟩ .nil, rfl⟩

theorem decode_convex_capped : ∃ r q, r.Valid ∧
    decode .x86 strictCapped 1 r = (.ok (presented .x86 strictCapped 1 capped [.uint64 5]), q) := by
  obtain ⟨r, q, hr, hlo⟩ := decode_capped 2 (by decide +kernel)
  obtain ⟨r', q', hr', hhi⟩ := decode_capped 9 (by decide +kernel)
  have hv : Inhabits cappedField (.uint64 5) := .unsigned rfl (by decide)
  have htame : ∀ f ∈ capped.fields, isInteger f.type = true ∨ f.type = .bitfield → Tame f := by
    simp [capped, cappedField, Tame]
  refine decode_convex .x86 rfl find_strictCapped htame hr hr' hlo hhi (.cons hv .nil) ?_
  intro i a b v ha hb hi
  cases i with
  | zero =>
    cases ha
    cases hb
    cases hi
    exact .inr ⟨_, _, _, rfl, rfl, rfl, by decide, by decide⟩
  | succ i => simp at hi

end IONet.Codec
