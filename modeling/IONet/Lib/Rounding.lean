import Mathlib.Data.Int.Log
import Mathlib.Data.Rat.Floor
import Mathlib.Algebra.Order.Field.Power
import Mathlib.Tactic.Linarith
import Mathlib.Tactic.FieldSimp
import Mathlib.Tactic.Positivity

/-! Binary floating-point rounding of rationals, to nearest with ties to even:
a precision and a least exponent, no upper bound on the exponent. -/

namespace Lib.Rounding

def nearestEven (x : ℚ) : ℤ :=
  if x - ⌊x⌋ < 1 / 2 then ⌊x⌋
  else if 1 / 2 < x - ⌊x⌋ then ⌊x⌋ + 1
  else if Even ⌊x⌋ then ⌊x⌋ else ⌊x⌋ + 1

def IsNearestEven (x : ℚ) (n : ℤ) : Prop :=
  |x - n| < 1 / 2 ∨ |x - n| = 1 / 2 ∧ Even n

theorem nearestEven_spec (x : ℚ) : IsNearestEven x (nearestEven x) := by
  have hlo := Int.floor_le x
  have hhi := Int.lt_floor_add_one x
  unfold IsNearestEven nearestEven
  split_ifs with hlt hgt heven
  · left
    rw [abs_of_nonneg (by linarith)]
    exact hlt
  · left
    push_cast
    rw [abs_of_nonpos (by linarith)]
    linarith
  · right
    rw [abs_of_nonneg (by linarith)]
    exact ⟨by linarith, heven⟩
  · right
    push_cast
    rw [abs_of_nonpos (by linarith)]
    exact ⟨by linarith, (Int.not_even_iff_odd.mp heven).add_one⟩

theorem IsNearestEven.abs_le {x : ℚ} {n : ℤ} (h : IsNearestEven x n) : |x - n| ≤ 1 / 2 := by
  rcases h with h | h
  · exact h.le
  · exact h.1.le

theorem IsNearestEven.unique {x : ℚ} {m n : ℤ} (hm : IsNearestEven x m)
    (hn : IsNearestEven x n) : m = n := by
  by_contra hne
  have hgap : (1 : ℚ) ≤ |(m : ℚ) - n| := by
    have h := Int.one_le_abs (sub_ne_zero.mpr hne)
    exact_mod_cast h
  have htri : |(m : ℚ) - n| ≤ |x - m| + |x - n| := by
    have h := abs_sub_le (m : ℚ) x n
    rwa [abs_sub_comm (m : ℚ) x] at h
  have hxm := hm.abs_le
  have hxn := hn.abs_le
  -- Two nearest integers are one apart, and one of them is odd.
  rcases hm with hm | ⟨-, hm⟩
  · linarith
  rcases hn with hn | ⟨-, hn⟩
  · linarith
  have hone : |m - n| = 1 := by
    have h : |(m : ℚ) - n| = 1 := by linarith
    exact_mod_cast h
  have heven := hm.sub hn
  rcases (abs_eq (zero_le_one' ℤ)).mp hone with h | h <;> rw [h] at heven <;> revert heven <;>
    decide

theorem nearestEven_eq {x : ℚ} {n : ℤ} (h : IsNearestEven x n) : nearestEven x = n :=
  (nearestEven_spec x).unique h

@[simp] theorem nearestEven_intCast (n : ℤ) : nearestEven n = n :=
  nearestEven_eq (Or.inl (by norm_num))

def truncate (x : ℚ) : ℤ := if 0 ≤ x then ⌊x⌋ else ⌈x⌉

theorem nearestEven_neg (x : ℚ) : nearestEven (-x) = -nearestEven x := by
  apply nearestEven_eq
  have habs : |-x - (-nearestEven x : ℤ)| = |x - nearestEven x| := by
    rw [← abs_neg]
    push_cast
    ring_nf
  rcases nearestEven_spec x with h | ⟨h, heven⟩
  · exact Or.inl (by rw [habs]; exact h)
  · exact Or.inr ⟨by rw [habs]; exact h, heven.neg⟩

theorem nearestEven_mono {x y : ℚ} (h : x ≤ y) : nearestEven x ≤ nearestEven y := by
  by_contra hlt
  have hstep : (nearestEven y : ℚ) + 1 ≤ nearestEven x := by exact_mod_cast not_le.mp hlt
  have hx := abs_le.mp (nearestEven_spec x).abs_le
  have hy := abs_le.mp (nearestEven_spec y).abs_le
  have hxy : x = y := by linarith
  rw [hxy] at hlt
  exact hlt le_rfl

theorem exists_int_mul_zpow {e k : ℤ} (h : e ≤ k) : ∃ i : ℤ, (2 : ℚ) ^ k = i * 2 ^ e := by
  refine ⟨2 ^ (k - e).toNat, ?_⟩
  push_cast
  rw [← zpow_natCast, Int.toNat_of_nonneg (by omega), ← zpow_add₀ (by norm_num), sub_add_cancel]

structure Format where
  prec : ℕ
  prec_pos : 0 < prec
  emin : ℤ

namespace Format

variable (F : Format)

/-- The exponent of the last place of `q`. -/
def exponent (q : ℚ) : ℤ := max (Int.log 2 |q| + 1 - F.prec) F.emin

def round (q : ℚ) : ℚ := nearestEven (q / 2 ^ F.exponent q) * 2 ^ F.exponent q

def Representable (q : ℚ) : Prop := F.round q = q

instance (q : ℚ) : Decidable (F.Representable q) := inferInstanceAs (Decidable (_ = _))

theorem exponent_neg (q : ℚ) : F.exponent (-q) = F.exponent q := by
  rw [exponent, exponent, abs_neg]

@[simp] theorem round_zero : F.round 0 = 0 := by
  have h : nearestEven 0 = 0 := nearestEven_intCast 0
  simp [round, h]

theorem round_neg (q : ℚ) : F.round (-q) = -F.round q := by
  rw [round, round, exponent_neg, neg_div, nearestEven_neg]
  push_cast
  ring

theorem representable_zero : F.Representable 0 := F.round_zero

theorem representable_neg {q : ℚ} (h : F.Representable q) : F.Representable (-q) := by
  rw [Representable, round_neg, h]

theorem lt_zpow_exponent (q : ℚ) : |q| < 2 ^ (F.exponent q + F.prec) := by
  have hlog : |q| < (2 : ℕ) ^ (Int.log 2 |q| + 1) := Int.lt_zpow_succ_log_self (by decide) |q|
  push_cast at hlog
  apply lt_of_lt_of_le hlog
  apply zpow_le_zpow_right₀ (by norm_num)
  have hmax := le_max_left (Int.log 2 |q| + 1 - F.prec) F.emin
  rw [exponent]
  linarith

theorem round_le_int_mul {q : ℚ} {k : ℤ} (h : q ≤ k * 2 ^ F.exponent q) :
    F.round q ≤ k * 2 ^ F.exponent q := by
  have hpos : (0 : ℚ) < 2 ^ F.exponent q := by positivity
  have hk := nearestEven_mono ((div_le_iff₀ hpos).mpr h)
  rw [nearestEven_intCast] at hk
  have hcast : (nearestEven (q / 2 ^ F.exponent q) : ℚ) ≤ k := by exact_mod_cast hk
  exact mul_le_mul_of_nonneg_right hcast hpos.le

theorem int_mul_le_round {q : ℚ} {k : ℤ} (h : k * 2 ^ F.exponent q ≤ q) :
    k * 2 ^ F.exponent q ≤ F.round q := by
  have hneg : -q ≤ (-k : ℤ) * 2 ^ F.exponent (-q) := by
    rw [exponent_neg]
    push_cast
    linarith
  have hle := F.round_le_int_mul hneg
  rw [round_neg, exponent_neg] at hle
  push_cast at hle
  linarith

theorem round_nonneg {q : ℚ} (h : 0 ≤ q) : 0 ≤ F.round q := by
  simpa using F.int_mul_le_round (q := q) (k := 0) (by simpa using h)

theorem round_mono_of_pos {x y : ℚ} (hx : 0 < x) (hxy : x ≤ y) : F.round x ≤ F.round y := by
  have hy : 0 < y := lt_of_lt_of_le hx hxy
  have hlog : Int.log 2 |x| ≤ Int.log 2 |y| := by
    rw [abs_of_pos hx, abs_of_pos hy]
    exact Int.log_mono_right hx hxy
  have hexp : F.exponent x ≤ F.exponent y := by
    unfold exponent
    omega
  rcases eq_or_lt_of_le hexp with heq | hlt
  · have hpos : (0 : ℚ) < 2 ^ F.exponent y := by positivity
    have hdiv : x / 2 ^ F.exponent y ≤ y / 2 ^ F.exponent y :=
      div_le_div_of_nonneg_right hxy hpos.le
    have hcast : (nearestEven (x / 2 ^ F.exponent y) : ℚ) ≤ nearestEven (y / 2 ^ F.exponent y) := by
      exact_mod_cast nearestEven_mono hdiv
    rw [round, round, heq]
    exact mul_le_mul_of_nonneg_right hcast hpos.le
  -- The power of two below `y` separates the two results.
  · have hey : F.exponent y = Int.log 2 |y| + 1 - F.prec := by
      unfold exponent at hlt ⊢
      omega
    have hprec := F.prec_pos
    obtain ⟨i, hi⟩ := exists_int_mul_zpow (e := F.exponent x) (k := Int.log 2 |y|) (by omega)
    obtain ⟨j, hj⟩ := exists_int_mul_zpow (e := F.exponent y) (k := Int.log 2 |y|) (by omega)
    have hbelow : x ≤ 2 ^ Int.log 2 |y| := by
      have h := F.lt_zpow_exponent x
      rw [abs_of_pos hx] at h
      have hpow : (2 : ℚ) ^ (F.exponent x + F.prec) ≤ 2 ^ Int.log 2 |y| :=
        zpow_le_zpow_right₀ (by norm_num) (by omega)
      linarith
    have habove : (2 : ℚ) ^ Int.log 2 |y| ≤ y := by
      have h := Int.zpow_log_le_self (R := ℚ) (b := 2) (by decide) hy
      rw [abs_of_pos hy]
      exact_mod_cast h
    calc
      F.round x ≤ i * 2 ^ F.exponent x := F.round_le_int_mul (by rw [← hi]; exact hbelow)
      _ = j * 2 ^ F.exponent y := by rw [← hi, ← hj]
      _ ≤ F.round y := F.int_mul_le_round (by rw [← hj]; exact habove)

theorem round_mono {x y : ℚ} (h : x ≤ y) : F.round x ≤ F.round y := by
  rcases lt_or_ge 0 x with hx | hx
  · exact F.round_mono_of_pos hx h
  have hx' : F.round x ≤ 0 := by
    have hneg := F.round_nonneg (q := -x) (by linarith)
    rw [round_neg] at hneg
    linarith
  rcases lt_or_ge y 0 with hy | hy
  · have hneg := F.round_mono_of_pos (x := -y) (y := -x) (by linarith) (by linarith)
    rw [round_neg, round_neg] at hneg
    linarith
  · exact hx'.trans (F.round_nonneg hy)

theorem round_le_of_representable {q m : ℚ} (hm : F.Representable m) (h : q ≤ m) :
    F.round q ≤ m := by
  have hle := F.round_mono h
  rwa [hm] at hle

theorem le_round_of_representable {q m : ℚ} (hm : F.Representable m) (h : m ≤ q) :
    m ≤ F.round q := by
  have hle := F.round_mono h
  rwa [hm] at hle

theorem representable_of_exponent_le {m e : ℤ} (h : F.exponent (m * 2 ^ e) ≤ e) :
    F.Representable (m * 2 ^ e) := by
  obtain ⟨i, hi⟩ := exists_int_mul_zpow h
  have heq : (m : ℚ) * 2 ^ e = (m * i : ℤ) * 2 ^ F.exponent (m * 2 ^ e) := by
    conv_lhs => rw [hi]
    push_cast
    ring
  have hdiv : (m : ℚ) * 2 ^ e / 2 ^ F.exponent (m * 2 ^ e) = (m * i : ℤ) := by
    rw [div_eq_iff (by positivity)]
    exact heq
  rw [Representable, round, hdiv, nearestEven_intCast, ← heq]

theorem representable_carried {e : ℤ} (he : F.emin ≤ e) :
    F.Representable ((2 ^ F.prec : ℤ) * 2 ^ e) := by
  obtain ⟨i, hi⟩ : ∃ i : ℕ, F.prec = i + 1 := ⟨F.prec - 1, by have := F.prec_pos; omega⟩
  have hpow : ((2 ^ F.prec : ℤ) : ℚ) * 2 ^ e = (2 ^ i : ℤ) * 2 ^ (e + 1) := by
    rw [hi, zpow_add₀ (by norm_num), pow_succ]
    push_cast
    ring
  have hexp : F.exponent ((2 ^ i : ℤ) * 2 ^ (e + 1)) ≤ e + 1 := by
    have habs : |((2 ^ i : ℤ) : ℚ) * 2 ^ (e + 1)| = (2 : ℕ) ^ ((F.prec : ℤ) + e) := by
      rw [← hpow, abs_of_pos (by positivity), zpow_add₀ (by norm_num), zpow_natCast]
      push_cast
      rfl
    rw [exponent, habs, Int.log_zpow (by decide)]
    omega
  rw [hpow]
  exact F.representable_of_exponent_le hexp

theorem representable_of_abs_le {m e : ℤ} (hm : |m| ≤ 2 ^ F.prec) (he : F.emin ≤ e) :
    F.Representable (m * 2 ^ e) := by
  have hpos : (0 : ℚ) < 2 ^ e := by positivity
  rcases eq_or_ne m 0 with rfl | hne
  · simp [representable_zero]
  rcases lt_or_eq_of_le hm with hlt | heq
  · apply F.representable_of_exponent_le
    have habs : |(m : ℚ) * 2 ^ e| < (2 : ℕ) ^ ((F.prec : ℤ) + e) := by
      rw [abs_mul, abs_of_pos hpos]
      push_cast
      rw [zpow_add₀ (by norm_num), zpow_natCast]
      exact mul_lt_mul_of_pos_right (by exact_mod_cast hlt) hpos
    have hlog := (Int.lt_zpow_iff_log_lt (by decide) (by positivity)).mp habs
    unfold exponent
    omega
  · have hcarried := F.representable_carried he
    rcases (abs_eq (by positivity)).mp heq with h | h
    · rw [h]
      exact hcarried
    · rw [h, Int.cast_neg, neg_mul]
      exact F.representable_neg hcarried

/-- An integer of the format's precision times a power of two. -/
def Holds (q : ℚ) : Prop := ∃ m e : ℤ, |m| ≤ 2 ^ F.prec ∧ F.emin ≤ e ∧ q = m * 2 ^ e

theorem holds_round (q : ℚ) : F.Holds (F.round q) := by
  refine ⟨_, _, ?_, le_max_right _ _, rfl⟩
  have hpos : (0 : ℚ) < 2 ^ F.exponent q := by positivity
  have habs : |q / 2 ^ F.exponent q| ≤ ((2 ^ F.prec : ℤ) : ℚ) := by
    rw [abs_div, abs_of_pos hpos, div_le_iff₀ hpos]
    have h := F.lt_zpow_exponent q
    rw [zpow_add₀ (by norm_num), zpow_natCast] at h
    push_cast
    linarith
  obtain ⟨hlo, hhi⟩ := abs_le.mp habs
  rw [abs_le]
  constructor
  · have h := nearestEven_mono hlo
    rwa [nearestEven_neg, nearestEven_intCast] at h
  · have h := nearestEven_mono hhi
    rwa [nearestEven_intCast] at h

theorem representable_iff_holds (q : ℚ) : F.Representable q ↔ F.Holds q := by
  constructor
  · intro h
    have hround := F.holds_round q
    rwa [h] at hround
  · rintro ⟨m, e, hm, he, rfl⟩
    exact F.representable_of_abs_le hm he

/-- Rounding twice is rounding once. -/
theorem representable_round (q : ℚ) : F.Representable (F.round q) :=
  (F.representable_iff_holds _).mpr (F.holds_round q)

end Format

end Lib.Rounding
