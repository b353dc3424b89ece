import IONet.Lib.Rounding

namespace Lib.Rounding

theorem truncate_neg (x : ℚ) : truncate (-x) = -truncate x := by
  unfold truncate
  rcases lt_trichotomy x 0 with hx | rfl | hx
  · rw [if_pos (by linarith), if_neg (by linarith), Int.floor_neg]
  · simp
  · rw [if_neg (by linarith), if_pos hx.le, Int.ceil_neg]

@[simp] theorem truncate_zero : truncate 0 = 0 := by simp [truncate]

theorem truncate_eq_iff_of_pos {n : ℤ} (hn : 0 < n) (x : ℚ) :
    truncate x = n ↔ n ≤ x ∧ x < n + 1 := by
  unfold truncate
  split_ifs with hx
  · exact Int.floor_eq_iff
  · have hceil : ⌈x⌉ ≤ 0 := Int.ceil_le.mpr (by simpa using (not_le.mp hx).le)
    have hcast : (0 : ℚ) < n := by exact_mod_cast hn
    constructor
    · intro h
      omega
    · intro h
      linarith

theorem abs_lt_abs_truncate_add_one (x : ℚ) : |x| < |(truncate x : ℚ)| + 1 := by
  unfold truncate
  split_ifs with hx
  · have hfloor : (0 : ℚ) ≤ ⌊x⌋ := by exact_mod_cast Int.floor_nonneg.mpr hx
    rw [abs_of_nonneg hx, abs_of_nonneg hfloor]
    exact Int.lt_floor_add_one x
  · have hneg := (not_le.mp hx).le
    have hceil : (⌈x⌉ : ℚ) ≤ 0 := by exact_mod_cast Int.ceil_le.mpr (by simpa using hneg)
    rw [abs_of_nonpos hneg, abs_of_nonpos hceil]
    have hlt := Int.ceil_lt_add_one x
    linarith

namespace Format

variable (F : Format)

theorem exponent_of_mem_binade {q : ℚ} {e : ℤ} (hlo : 2 ^ (F.prec - 1 + e) ≤ q)
    (hhi : q < 2 ^ (F.prec + e)) (he : F.emin ≤ e) : F.exponent q = e := by
  have hpos : 0 < q := lt_of_lt_of_le (by positivity) hlo
  have hge : F.prec - 1 + e ≤ Int.log 2 q :=
    (Int.zpow_le_iff_le_log (by decide) hpos).mp (by exact_mod_cast hlo)
  have hlt : Int.log 2 q < F.prec + e :=
    (Int.lt_zpow_iff_log_lt (by decide) hpos).mp (by exact_mod_cast hhi)
  rw [exponent, abs_of_pos hpos]
  omega

theorem binade_of_mantissa {m q : ℚ} {e : ℤ} (hlo : (2 : ℚ) ^ F.prec ≤ 2 * m) (hq : m * 2 ^ e ≤ q) :
    2 ^ (F.prec - 1 + e) ≤ q := by
  have hsplit : (2 : ℚ) ^ (F.prec - 1 + e) = 2 ^ F.prec / 2 * 2 ^ e := by
    rw [zpow_add₀ (by norm_num), zpow_sub_one₀ (by norm_num), zpow_natCast, div_eq_mul_inv]
  rw [hsplit]
  refine le_trans ?_ hq
  exact mul_le_mul_of_nonneg_right (by linarith) (by positivity)

section

variable {N e : ℤ} (hlo : (2 : ℤ) ^ F.prec < 2 * N) (hhi : N ≤ 2 ^ F.prec) (he : F.emin ≤ e)

include hlo hhi he

theorem exponent_of_between {q : ℚ} (hge : (N - 1 : ℤ) * 2 ^ e ≤ q) (hlt : q < N * 2 ^ e) :
    F.exponent q = e := by
  have hpos : (0 : ℚ) < 2 ^ e := by positivity
  obtain ⟨i, hi⟩ : ∃ i : ℕ, F.prec = i + 1 := ⟨F.prec - 1, by have := F.prec_pos; omega⟩
  have hbelow : (2 : ℤ) ^ F.prec ≤ 2 * (N - 1) := by
    rw [hi, pow_succ] at hlo ⊢
    omega
  have hbelow' : (2 : ℚ) ^ F.prec ≤ 2 * ((N - 1 : ℤ) : ℚ) := by exact_mod_cast hbelow
  have hhi' : (N : ℚ) ≤ 2 ^ F.prec := by exact_mod_cast hhi
  apply F.exponent_of_mem_binade (F.binade_of_mantissa hbelow' hge) _ he
  rw [zpow_add₀ (by norm_num), zpow_natCast]
  exact hlt.trans_le (mul_le_mul_of_nonneg_right hhi' hpos.le)

theorem round_le_of_lt_tie {q : ℚ} (hlt : q < (N - 1 / 2) * 2 ^ e) :
    F.round q ≤ (N - 1 : ℤ) * 2 ^ e := by
  have hpos : (0 : ℚ) < 2 ^ e := by positivity
  rcases le_total q ((N - 1 : ℤ) * 2 ^ e) with hq | hq
  · apply F.round_le_of_representable _ hq
    apply F.representable_of_abs_le _ he
    have hpow : (0 : ℤ) < 2 ^ F.prec := by positivity
    rw [abs_of_nonneg (by omega)]
    omega
  · have hexp : F.exponent q = e := F.exponent_of_between hlo hhi he hq
      (hlt.trans (mul_lt_mul_of_pos_right (by linarith) hpos))
    have hnear : nearestEven (q / 2 ^ e) = N - 1 := by
      apply nearestEven_eq
      left
      have hge := (le_div_iff₀ hpos).mpr hq
      have hless := (div_lt_iff₀ hpos).mpr hlt
      push_cast at hge ⊢
      rw [abs_of_nonneg (by linarith)]
      linarith
    rw [round, hexp, hnear]

theorem round_tie (heven : Even N) : F.round ((N - 1 / 2) * 2 ^ e) = N * 2 ^ e := by
  have hpos : (0 : ℚ) < 2 ^ e := by positivity
  have hexp : F.exponent ((N - 1 / 2) * 2 ^ e) = e := by
    apply F.exponent_of_between hlo hhi he
    · push_cast
      exact mul_le_mul_of_nonneg_right (by linarith) hpos.le
    · exact mul_lt_mul_of_pos_right (by linarith) hpos
  have htie : nearestEven (N - 1 / 2 : ℚ) = N := by
    apply nearestEven_eq
    right
    exact ⟨by norm_num [abs_of_neg], heven⟩
  rw [round, hexp, mul_div_assoc, div_self hpos.ne', mul_one, htie]

theorem even_mul_le_round_iff (heven : Even N) (q : ℚ) :
    N * 2 ^ e ≤ F.round q ↔ (N - 1 / 2) * 2 ^ e ≤ q := by
  constructor
  · intro hle
    by_contra hlt
    have hround := F.round_le_of_lt_tie hlo hhi he (not_le.mp hlt)
    have hstep : ((N - 1 : ℤ) : ℚ) * 2 ^ e < N * 2 ^ e :=
      mul_lt_mul_of_pos_right (by push_cast; linarith) (by positivity)
    linarith
  · intro hle
    rw [← F.round_tie hlo hhi he heven]
    exact F.round_mono hle

end

def error (q : ℚ) : ℚ := F.round q - q

theorem error_of_representable {q : ℚ} (h : F.Representable q) : F.error q = 0 := by
  rw [error, h, sub_self]

def halfGap (n : ℕ) : ℚ := 2 ^ ((Nat.clog 2 n : ℤ) - F.prec - 1)

theorem halfGap_pos (n : ℕ) : 0 < F.halfGap n := by
  rw [halfGap]
  positivity

theorem two_pow_clog_lt {n : ℕ} (hpos : 0 < n) : 2 ^ Nat.clog 2 n < 2 * n := by
  rcases eq_or_lt_of_le (Nat.succ_le_of_lt hpos) with rfl | hone
  · simp
  · have hpred := Nat.pow_pred_clog_lt_self (b := 2) (by decide) hone
    have hclog : Nat.clog 2 n = (Nat.clog 2 n).pred + 1 :=
      (Nat.succ_pred_eq_of_pos (Nat.clog_pos (by decide) hone)).symm
    rw [hclog, pow_succ']
    omega

theorem natCast_le_round_iff {n : ℕ} (hpos : 0 < n) (hn : n ≤ 2 ^ (F.prec - 1))
    (hemin : F.emin ≤ -F.prec) (q : ℚ) : n ≤ F.round q ↔ n - F.halfGap n ≤ q := by
  have hclog : Nat.clog 2 n ≤ F.prec - 1 := Nat.clog_le_of_le_pow hn
  have hprec := F.prec_pos
  obtain ⟨i, hi⟩ : ∃ i : ℕ, F.prec = Nat.clog 2 n + (i + 1) :=
    ⟨F.prec - 1 - Nat.clog 2 n, by omega⟩
  have hsplit : (2 : ℤ) ^ F.prec = 2 ^ Nat.clog 2 n * 2 ^ (i + 1) := by rw [hi, pow_add]
  have hlo : (2 : ℤ) ^ F.prec < 2 * ((n : ℤ) * 2 ^ (i + 1)) := by
    have hcast : (2 : ℤ) ^ Nat.clog 2 n < 2 * n := by exact_mod_cast two_pow_clog_lt hpos
    rw [hsplit, ← mul_assoc]
    exact mul_lt_mul_of_pos_right hcast (by positivity)
  have hhi : (n : ℤ) * 2 ^ (i + 1) ≤ 2 ^ F.prec := by
    have hcast : (n : ℤ) ≤ 2 ^ Nat.clog 2 n := by exact_mod_cast Nat.le_pow_clog (by decide) n
    rw [hsplit]
    exact mul_le_mul_of_nonneg_right hcast (by positivity)
  have heven : Even ((n : ℤ) * 2 ^ (i + 1)) := (Even.pow_of_ne_zero even_two (by omega)).mul_left _
  -- The last place at `n`, and the mantissa of `n` there.
  have hunit : (2 : ℚ) ^ (i + 1) * 2 ^ (-(i + 1 : ℕ) : ℤ) = 1 := by
    rw [zpow_neg, zpow_natCast, mul_inv_cancel₀ (by positivity)]
  have hhalf : F.halfGap n = 1 / 2 * 2 ^ (-(i + 1 : ℕ) : ℤ) := by
    rw [halfGap, zpow_sub_one₀ (by norm_num), mul_comm, one_div, hi]
    congr 2
    push_cast
    ring
  have hiff := F.even_mul_le_round_iff hlo hhi (e := -(i + 1 : ℕ)) (by omega) heven q
  push_cast at hiff hhalf hunit
  rw [sub_mul, mul_assoc, hunit, mul_one, ← hhalf] at hiff
  exact hiff

theorem truncate_round_eq_natCast_iff {n : ℕ} (hpos : 0 < n) (hn : n < 2 ^ (F.prec - 1))
    (hemin : F.emin ≤ -F.prec) (q : ℚ) : truncate (F.round q) = n ↔
      n - F.halfGap n ≤ q ∧ q < n + 1 - F.halfGap (n + 1) := by
  have hnext := F.natCast_le_round_iff (n := n + 1) (by omega) hn hemin q
  rw [truncate_eq_iff_of_pos (by exact_mod_cast hpos), Int.cast_natCast,
    F.natCast_le_round_iff hpos hn.le hemin, ← not_le, ← not_le]
  push_cast at hnext
  rw [hnext]

/-- How much a number next to the integer `n` may be off: away from zero by less
than one, toward zero by next to nothing. -/
def Within (n : ℤ) (e : ℚ) : Prop :=
  -F.halfGap n.natAbs ≤ n.sign * e ∧ n.sign * e < 1 - F.halfGap (n.natAbs + 1)

theorem within_neg (n : ℤ) (e : ℚ) : F.Within (-n) (-e) ↔ F.Within n e := by
  simp [Within, Int.sign_neg]

theorem within_zero {n : ℤ} (hn : n.natAbs < 2 ^ (F.prec - 1)) : F.Within n 0 := by
  have hclog : Nat.clog 2 (n.natAbs + 1) ≤ F.prec - 1 := Nat.clog_le_of_le_pow hn
  have hlt : F.halfGap (n.natAbs + 1) < 1 := by
    rw [halfGap]
    apply zpow_lt_one_of_neg₀ (by norm_num)
    have hprec := F.prec_pos
    omega
  constructor
  · rw [mul_zero]
    exact neg_nonpos.mpr (F.halfGap_pos _).le
  · rw [mul_zero]
    linarith

theorem truncate_round_add_iff {n : ℤ} (hn : n.natAbs < 2 ^ (F.prec - 1)) (hemin : F.emin ≤ -F.prec)
    (hne : n ≠ 0) (e : ℚ) : truncate (F.round (n + e)) = n ↔ F.Within n e := by
  have hnat : ∀ (n : ℕ) (e : ℚ), 0 < n → n < 2 ^ (F.prec - 1) →
      (truncate (F.round ((n : ℤ) + e)) = n ↔ F.Within n e) := by
    intro n e hpos hn
    rw [F.truncate_round_eq_natCast_iff hpos hn hemin, Within, Int.sign_natCast_of_ne_zero hpos.ne']
    simp only [Int.cast_natCast, Int.natAbs_natCast, Int.cast_one, one_mul]
    constructor
    · rintro ⟨hlo, hhi⟩
      exact ⟨by linarith, by linarith⟩
    · rintro ⟨hlo, hhi⟩
      exact ⟨by linarith, by linarith⟩
  obtain ⟨m, rfl | rfl⟩ := n.eq_nat_or_neg
  · exact hnat m e (by omega) (by simpa using hn)
  · have hmirror : ((-m : ℤ) : ℚ) + e = -((m : ℤ) + -e) := by
      push_cast
      ring
    have hm := hnat m (-e) (by omega) (by simpa using hn)
    rw [hmirror, F.round_neg, truncate_neg, neg_inj, hm, ← F.within_neg, neg_neg]

end Format

end Lib.Rounding
