import IONet.Core.Double

namespace IONet.Core

open Lib.Rounding

namespace Number

variable {x y z : Number}

theorem inf_true_le (h : x ≠ .nan) : (Number.inf true).le x = true := by
  cases x <;> simp_all [Number.le]

theorem le_inf_false (h : x ≠ .nan) : x.le (.inf false) = true := by
  cases x <;> simp_all [Number.le]

theorem lt_of_le_of_lt (hxy : x.le y = true) (hyz : y.lt z = true) : x.lt z = true := by
  cases x with
  | nan => simp at hxy
  | inf s =>
    cases y with
    | nan => simp at hxy
    | inf t => cases z <;> cases s <;> cases t <;> simp_all [Number.le, Number.lt]
    | rat q => cases z <;> cases s <;> simp_all [Number.le, Number.lt]
  | rat p =>
    cases y with
    | nan => simp at hxy
    | inf t => cases z <;> cases t <;> simp_all [Number.le, Number.lt]
    | rat q =>
      cases z with
      | nan => simp at hyz
      | inf u => exact hyz
      | rat r =>
        simp only [Number.le, Number.lt, decide_eq_true_eq] at hxy hyz ⊢
        exact hxy.trans_lt hyz

theorem lt_of_lt_of_le (hxy : x.lt y = true) (hyz : y.le z = true) : x.lt z = true := by
  cases z with
  | nan => simp at hyz
  | inf u =>
    cases y with
    | nan => simp at hyz
    | inf t => cases x <;> cases u <;> cases t <;> simp_all [Number.le, Number.lt]
    | rat q => cases x <;> cases u <;> simp_all [Number.le, Number.lt]
  | rat r =>
    cases y with
    | nan => simp at hyz
    | inf t => cases x <;> cases t <;> simp_all [Number.le, Number.lt]
    | rat q =>
      cases x with
      | nan => simp at hxy
      | inf s => exact hxy
      | rat p =>
        simp only [Number.le, Number.lt, decide_eq_true_eq] at hxy hyz ⊢
        exact hxy.trans_le hyz

end Number

namespace Double

theorem ofRat_mono {p q : ℚ} (h : p ≤ q) : (ofRat p).val.le (ofRat q).val = true := by
  have hround := binary64.round_mono h
  have hsign : ∀ {a : ℚ}, a < 0 → binary64.round a ≤ 0 := by
    intro a ha
    have hle := binary64.round_mono ha.le
    rwa [binary64.round_zero] at hle
  rw [val_ofRat, val_ofRat]
  split_ifs with hp hq hq
  · simpa [Number.le] using hround
  · -- only the upper one overflows, so it is not negative
    simp only [Number.le, Bool.not_eq_true', decide_eq_false_iff_not]
    intro hneg
    rw [abs_of_nonpos (hsign hneg)] at hq
    exact hq (neg_lt.mp ((abs_lt.mp hp).1.trans_le hround))
  · simp only [Number.le, decide_eq_true_eq]
    by_contra hneg
    have hnonneg := binary64.round_nonneg (not_lt.mp hneg)
    rw [abs_of_nonneg hnonneg] at hp
    exact hp (hround.trans_lt (abs_lt.mp hq).2)
  · simp only [Number.le, Bool.or_eq_true, decide_eq_true_eq, Bool.not_eq_true',
      decide_eq_false_iff_not]
    exact (lt_or_ge p 0).imp id fun hp' => not_lt.mpr (hp'.trans h)

theorem ofRat_ne_nan (q : ℚ) : (ofRat q).val ≠ .nan := by
  rw [val_ofRat]
  split_ifs <;> exact nofun

variable {x y z : Double}

theorem add_ne_nan {p b : ℚ} (hx : x.val = .rat p) (hz : z.val = .rat b) :
    (x.add z).val ≠ .nan := by
  rw [val_add hx hz]
  exact ofRat_ne_nan _

theorem add_mono {b : ℚ} (hz : z.val = .rat b) (h : x.val.le y.val = true) :
    (x.add z).val.le (y.add z).val = true := by
  cases hx : x.val with
  | nan => simp [hx] at h
  | inf s =>
    have hsum : x.add z = inf s := by simp only [add, hx, hz]
    cases hy : y.val with
    | nan => simp [hy] at h
    | inf t =>
      have hsum' : y.add z = inf t := by simp only [add, hy, hz]
      rw [hx, hy] at h
      rw [hsum, hsum']
      exact h
    | rat q =>
      rw [hx, hy] at h
      have hs : s = true := h
      rw [hsum, hs]
      exact Number.inf_true_le (add_ne_nan hy hz)
  | rat p =>
    cases hy : y.val with
    | nan => simp [hy] at h
    | inf t =>
      have hsum' : y.add z = inf t := by simp only [add, hy, hz]
      rw [hx, hy] at h
      have ht : t = false := by simpa [Number.le] using h
      rw [hsum', ht]
      exact Number.le_inf_false (add_ne_nan hx hz)
    | rat q =>
      simp only [hx, hy, Number.le, decide_eq_true_eq] at h
      rw [val_add hx hz, val_add hy hz]
      exact ofRat_mono (add_le_add_left h b)

theorem mul_mono {p q a : ℚ} (hx : x.val = .rat p) (hy : y.val = .rat q) (hz : z.val = .rat a)
    (ha : 0 ≤ a) (h : p ≤ q) : (x.mul z).val.le (y.mul z).val = true := by
  rw [val_mul hx hz, val_mul hy hz]
  exact ofRat_mono (mul_le_mul_of_nonneg_right h ha)

theorem mul_anti {p q a : ℚ} (hx : x.val = .rat p) (hy : y.val = .rat q) (hz : z.val = .rat a)
    (ha : a ≤ 0) (h : p ≤ q) : (y.mul z).val.le (x.mul z).val = true := by
  rw [val_mul hx hz, val_mul hy hz]
  exact ofRat_mono (mul_le_mul_of_nonpos_right h ha)

end Double

end IONet.Core
