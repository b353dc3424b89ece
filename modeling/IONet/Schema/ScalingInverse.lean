import IONet.Lib.Truncation
import IONet.Schema.SchemaParser

/-! Whether `Scaling::remove` undoes `Scaling::apply`. -/

namespace IONet

open IONet.Core Lib.Rounding SchemaParserBase

namespace Core.Double

def IsFinite (x : Double) : Prop := ∃ q, x.val = .rat q

theorem isFinite_ofRat_iff (q : ℚ) : (ofRat q).IsFinite ↔ |binary64.round q| < 2 ^ 1024 := by
  rw [IsFinite, val_ofRat]
  split_ifs with h <;> simp [h]

theorem val_ofRat_of_finite {q : ℚ} (h : (ofRat q).IsFinite) :
    (ofRat q).val = .rat (binary64.round q) := by
  rw [val_ofRat, if_pos ((isFinite_ofRat_iff q).mp h)]

theorem val_ofInt {n : Int} (h : |n| ≤ 2 ^ 53) : (ofInt n).val = .rat n := by
  have hrep : binary64.Representable n := by
    simpa using binary64.representable_of_abs_le (e := 0) h (by decide)
  have hlt : |(n : ℚ)| < 2 ^ 1024 := by
    have hcast : |(n : ℚ)| ≤ 2 ^ 53 := by exact_mod_cast h
    exact hcast.trans_lt (pow_lt_pow_right₀ one_lt_two (by decide))
  rw [ofInt, val_ofRat, hrep, if_pos hlt]

theorem div_of_val {x y : Double} {p q : ℚ} (hx : x.val = .rat p) (hy : y.val = .rat q)
    (hq : q ≠ 0) : ∃ z, x.div y = some z ∧ z.val = (ofRat (p / q)).val := by
  simp only [div, hx, hy, hq, if_false]
  split_ifs with hp
  · refine ⟨_, rfl, ?_⟩
    rw [hp, zero_div, val_ofRat_zero]
    rfl
  · exact ⟨_, rfl, rfl⟩

theorem toInt64_congr {x y : Double} (h : x.val = y.val) : x.toInt64 = y.toInt64 := by
  rw [toInt64, toInt64, toIntegral, toIntegral, h]

theorem finite_of_add {x y : Double} (h : (x.add y).IsFinite) : x.IsFinite ∧ y.IsFinite := by
  obtain ⟨q, hq⟩ := h
  unfold add at hq
  split at hq
  case h_6 p p' hx hy => exact ⟨⟨p, hx⟩, p', hy⟩
  case h_3 => split_ifs at hq <;> cases hq
  all_goals cases hq

theorem finite_of_mul {x y : Double} (h : (x.mul y).IsFinite) : x.IsFinite ∧ y.IsFinite := by
  obtain ⟨q, hq⟩ := h
  unfold mul at hq
  split at hq
  case h_6 p p' hx hy => exact ⟨⟨p, hx⟩, p', hy⟩
  case h_4 | h_5 => split_ifs at hq <;> cases hq
  all_goals cases hq

theorem toInt64_ofRat_eq_some_iff (q : ℚ) (v : Int64) :
    (ofRat q).toInt64 = some v ↔ truncate (binary64.round q) = v.toInt := by
  have hlo := v.le_toInt
  have hhi := v.toInt_lt
  constructor
  · intro h
    obtain ⟨t, ht, rfl⟩ := Option.map_eq_some_iff.mp h
    rw [toIntegral, val_ofRat] at ht
    split_ifs at ht with hfin
    obtain ⟨hrange, hvalue⟩ := Option.ite_none_right_eq_some.mp ht
    cases hvalue
    exact (Int64.toInt_ofInt_of_le hrange.1 hrange.2).symm
  · intro h
    have hfin : |binary64.round q| < 2 ^ 1024 := by
      have hlt := abs_lt_abs_truncate_add_one (binary64.round q)
      have habs : |truncate (binary64.round q)| ≤ 2 ^ 63 := by
        rw [h, abs_le]
        omega
      have hcast : |(truncate (binary64.round q) : ℚ)| ≤ 2 ^ 63 := by exact_mod_cast habs
      calc
        |binary64.round q| < |(truncate (binary64.round q) : ℚ)| + 1 := hlt
        _ ≤ 2 ^ 63 + 1 := add_le_add hcast le_rfl
        _ ≤ 2 ^ 64 := by norm_num
        _ < 2 ^ 1024 := pow_lt_pow_right₀ one_lt_two (by decide)
    rw [toInt64, toIntegral, val_ofRat, if_pos hfin]
    simp only [h, hlo, hhi, and_self, if_true, Option.map_some, Int64.ofInt_toInt]

end Core.Double

namespace Scaling

open Double

/-- The rounding errors of the product, of the sum and of the difference. -/
def drift (s o : ℚ) (raw : Int) : ℚ :=
  binary64.error (raw * s) + binary64.error (binary64.round (raw * s) + o) +
    binary64.error (binary64.round (binary64.round (raw * s) + o) - o)

structure Recoverable (s o : ℚ) (raw : Int) : Prop where
  divides : s ≠ 0
  bounded : |raw * s + drift s o raw| < 2 ^ 1024
  near : binary64.Within raw (drift s o raw / s)

section

variable {s o : ℚ} {raw : Int}

theorem difference_eq (s o : ℚ) (raw : Int) :
    binary64.round (binary64.round (binary64.round (raw * s) + o) - o) =
      raw * s + drift s o raw := by
  unfold drift Format.error
  ring

theorem drift_of_exact (hproduct : binary64.Representable (raw * s))
    (hsum : binary64.Representable (raw * s + o)) : drift s o raw = 0 := by
  have hdifference : raw * s + o - o = raw * s := add_sub_cancel_right _ _
  rw [drift, hproduct, hsum, hdifference, Format.error_of_representable _ hproduct,
    Format.error_of_representable _ hsum, add_zero, add_zero]

theorem drift_zero (ho : binary64.Representable o) : drift s o 0 = 0 := by
  apply drift_of_exact
  · simpa using binary64.representable_zero
  · simpa using ho

theorem natAbs_lt (hraw : |raw| ≤ 2 ^ 31) : raw.natAbs < 2 ^ (binary64.prec - 1) := by
  have hcast : (raw.natAbs : Int) ≤ 2 ^ 31 := by rwa [Int.natCast_natAbs]
  have hpow : (2 : Int) ^ 31 < ((2 ^ (binary64.prec - 1) : ℕ) : Int) := by decide
  omega

theorem truncate_quotient_iff (hs : s ≠ 0) (ho : binary64.Representable o)
    (hraw : |raw| ≤ 2 ^ 31) :
    truncate (binary64.round ((raw * s + drift s o raw) / s)) = raw ↔
      binary64.Within raw (drift s o raw / s) := by
  have hquotient : (raw * s + drift s o raw) / s = raw + drift s o raw / s := by
    rw [add_div, mul_div_cancel_right₀ _ hs]
  have hsmall := natAbs_lt hraw
  rw [hquotient]
  rcases eq_or_ne raw 0 with rfl | hne
  · rw [drift_zero ho]
    simpa using binary64.within_zero hsmall
  · exact binary64.truncate_round_add_iff hsmall (by decide) hne _

end

theorem val_apply {scaling : Scaling} {raw : Int64} (hraw : |raw.toInt| ≤ 2 ^ 31)
    (hfinite : (scaling.apply raw).IsFinite) :
    ∃ s o, scaling.scale.val = .rat s ∧ scaling.offset.val = .rat o ∧
      |binary64.round (raw.toInt * s)| < 2 ^ 1024 ∧
      (scaling.apply raw).val = .rat (binary64.round (binary64.round (raw.toInt * s) + o)) := by
  obtain ⟨⟨p, hp⟩, o, ho⟩ := finite_of_add hfinite
  obtain ⟨-, s, hs⟩ := finite_of_mul ⟨p, hp⟩
  have hword := val_ofInt (hraw.trans (by decide))
  have hproduct : (ofRat (raw.toInt * s)).val = .rat p := by rw [← val_mul hword hs, hp]
  have hsum : (scaling.apply raw).val = (ofRat (p + o)).val := val_add hp ho
  have hp' := (val_ofRat_of_finite ⟨p, hproduct⟩).symm.trans hproduct
  cases hp'
  refine ⟨s, o, hs, ho, (isFinite_ofRat_iff _).mp ⟨_, hproduct⟩, ?_⟩
  rw [hsum]
  refine val_ofRat_of_finite ?_
  rwa [IsFinite, ← hsum]

theorem remove_eq_some_iff {scaling : Scaling} {s o q : ℚ} (hs : scaling.scale.val = .rat s)
    (ho : scaling.offset.val = .rat o) {real : Double} (hreal : real.val = .rat q) (v : Int64) :
    scaling.remove real = some v ↔ s ≠ 0 ∧ |binary64.round (q - o)| < 2 ^ 1024 ∧
      truncate (binary64.round (binary64.round (q - o) / s)) = v.toInt := by
  have hdifference := val_sub hreal ho
  unfold remove
  rw [Option.bind_eq_bind]
  by_cases hfinite : (ofRat (q - o)).IsFinite
  · have hbound := (isFinite_ofRat_iff _).mp hfinite
    rw [val_ofRat_of_finite hfinite] at hdifference
    by_cases hzero : s = 0
    · simp [div, hdifference, hs, hzero]
    · obtain ⟨quotient, hquotient, hval⟩ := div_of_val hdifference hs hzero
      rw [hquotient, Option.bind_some, toInt64_congr hval, toInt64_ofRat_eq_some_iff]
      simp [hzero, hbound]
  · have hbound := mt (isFinite_ofRat_iff _).mpr hfinite
    rw [val_ofRat, if_neg hbound] at hdifference
    rw [div, hdifference, hs]
    by_cases hzero : s = 0
    · simp [hzero]
    · simp [hzero, hbound, toInt64, toIntegral, inf, ofNumber]

theorem remove_apply_iff {scaling : Scaling} {raw : Int64} {s o : ℚ}
    (hs : scaling.scale.val = .rat s) (ho : scaling.offset.val = .rat o)
    (hraw : |raw.toInt| ≤ 2 ^ 31)
    (hreal : (scaling.apply raw).val =
      .rat (binary64.round (binary64.round (raw.toInt * s) + o))) :
    scaling.remove (scaling.apply raw) = some raw ↔ Recoverable s o raw.toInt := by
  have hrep : binary64.Representable o := by
    have hoffset := scaling.offset.isBinary64
    rw [ho] at hoffset
    exact hoffset.1
  rw [remove_eq_some_iff hs ho hreal, difference_eq]
  constructor
  · rintro ⟨hzero, hbounded, hvalue⟩
    exact ⟨hzero, hbounded, (truncate_quotient_iff hzero hrep hraw).mp hvalue⟩
  · rintro ⟨hzero, hbounded, hnear⟩
    exact ⟨hzero, hbounded, (truncate_quotient_iff hzero hrep hraw).mpr hnear⟩

/-- There is something to divide by, and the product and the sum are doubles. -/
structure Exact (s o : ℚ) (raw : Int) : Prop where
  divides : s ≠ 0
  product : binary64.Holds (raw * s)
  sum : binary64.Holds (raw * s + o)

theorem recoverable_of_exact {s o : ℚ} {raw : Int} (h : Exact s o raw)
    (hbounded : |binary64.round (raw * s)| < 2 ^ 1024) (hraw : |raw| ≤ 2 ^ 31) :
    Recoverable s o raw := by
  have hproduct := (binary64.representable_iff_holds _).mpr h.product
  have hdrift := drift_of_exact hproduct ((binary64.representable_iff_holds _).mpr h.sum)
  have hsmall : raw.natAbs < 2 ^ (binary64.prec - 1) := natAbs_lt hraw
  refine ⟨h.divides, ?_, ?_⟩
  · rwa [hdrift, add_zero, ← hproduct]
  · rw [hdrift, zero_div]
    exact binary64.within_zero hsmall

/-- A raw value comes back when nothing is rounded before the cast, and none
does under a scale of zero. -/
theorem remove_apply_of_exact {scaling : Scaling} {raw : Int64} (hraw : |raw.toInt| ≤ 2 ^ 31)
    (hfinite : (scaling.apply raw).IsFinite) :
    ∃ s o, scaling.scale.val = .rat s ∧ scaling.offset.val = .rat o ∧
      (Exact s o raw.toInt → scaling.remove (scaling.apply raw) = some raw) ∧
      (s = 0 → scaling.remove (scaling.apply raw) = none) := by
  obtain ⟨s, o, hs, ho, hbounded, hreal⟩ := val_apply hraw hfinite
  refine ⟨s, o, hs, ho, fun hexact => ?_, fun hzero => ?_⟩
  · exact (remove_apply_iff hs ho hraw hreal).mpr (recoverable_of_exact hexact hbounded hraw)
  · rw [Option.eq_none_iff_forall_ne_some]
    intro v hv
    exact ((remove_eq_some_iff hs ho hreal v).mp hv).1 hzero

def halves : Scaling where
  scale := Double.ofRat (1 / 2)
  offset := Double.ofInt (-40)

theorem remove_apply_of_exact_halves : halves.remove (halves.apply 5) = some 5 := by
  have hscale : halves.scale.val = .rat (1 / 2) := by decide +kernel
  have hoffset : halves.offset.val = .rat (-40) := by decide +kernel
  have hvalue : (halves.apply 5).val = .rat (-75 / 2) := by decide +kernel
  have hraw : |(5 : Int64).toInt| ≤ 2 ^ 31 := by decide
  obtain ⟨s, o, hs, ho, hback, -⟩ := remove_apply_of_exact hraw ⟨_, hvalue⟩
  cases hscale.symm.trans hs
  cases hoffset.symm.trans ho
  have hword : (5 : Int64).toInt = 5 := rfl
  refine hback ⟨by norm_num, ⟨5, -1, by decide, by decide, ?_⟩, -75, -1, by decide, by decide, ?_⟩
  · rw [hword]
    norm_num
  · rw [hword]
    norm_num

def LetIn (scaling : Scaling) : Prop :=
  ∃ ir s, buildSchema ir = .ok s ∧ ∃ p ∈ s.packets, ∃ f ∈ p.fields, f.scaling = some scaling

def sensor (scaling : Scaling) : IRSchema where
  info := { name := "Sensors" }
  packets := [{
    id := 1
    name := "sensor"
    fields := [{
      name := "temperature"
      type := "int16"
      scaling := { scale := some scaling.scale, offset := some scaling.offset } }] }]

theorem letIn (scaling : Scaling) : LetIn scaling := by
  exact ⟨sensor scaling, _, rfl, _, List.mem_singleton_self _, _, List.mem_singleton_self _, rfl⟩

def centidegrees : Scaling where
  scale := Double.ofRat (1 / 100)
  offset := Double.ofInt (-40)

def flat : Scaling where
  scale := Double.ofInt 0

/-- A count of one comes back as zero, and a scale of zero is divided by. -/
theorem count_lost :
    (LetIn centidegrees ∧ (centidegrees.apply 1).val = .rat (-5628092159329567 / 2 ^ 47) ∧
      centidegrees.remove (centidegrees.apply 1) = some 0) ∧
    LetIn flat ∧ (flat.apply 1).val = .rat 0 ∧ flat.remove (flat.apply 1) = none := by
  refine ⟨⟨letIn _, ?_, ?_⟩, letIn _, ?_, ?_⟩
  all_goals decide +kernel

end Scaling

end IONet
