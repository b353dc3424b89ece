import IONet.Lib.Rounding

/-! The host's `double`: NaN, an infinity, or a rational that binary64 holds, and
zero with its sign. The sign and the payload of a NaN are not kept. -/

namespace IONet.Core

open Lib.Rounding

inductive Number
  | nan : Number
  | inf (neg : Bool) : Number
  | rat (q : ℚ) : Number
  deriving DecidableEq

def Number.lt : Number → Number → Bool
  | .nan, _ => false
  | _, .nan => false
  | .inf s, .inf t => s && !t
  | .inf s, .rat _ => s
  | .rat _, .inf t => !t
  | .rat p, .rat q => p < q

/-- Ordered comparison: nothing is below or above NaN. -/
def Number.le : Number → Number → Bool
  | .nan, _ => false
  | _, .nan => false
  | .inf s, .inf t => s || !t
  | .inf s, .rat _ => s
  | .rat _, .inf t => !t
  | .rat p, .rat q => p ≤ q

theorem Number.le_iff_not_lt {x y : Number} (hx : x ≠ .nan) (hy : y ≠ .nan) :
    x.le y ↔ ¬y.lt x := by
  cases x with
  | nan => exact absurd rfl hx
  | inf s =>
    cases y with
    | nan => exact absurd rfl hy
    | inf t => cases s <;> cases t <;> decide
    | rat q => cases s <;> simp [Number.le, Number.lt]
  | rat p =>
    cases y with
    | nan => exact absurd rfl hy
    | inf t => cases t <;> simp [Number.le, Number.lt]
    | rat q => simp [Number.le, Number.lt]

@[simp] theorem Number.nan_le (x : Number) : Number.nan.le x = false := by cases x <;> rfl

@[simp] theorem Number.le_nan (x : Number) : x.le .nan = false := by cases x <;> rfl

@[simp] theorem Number.nan_lt (x : Number) : Number.nan.lt x = false := by cases x <;> rfl

@[simp] theorem Number.lt_nan (x : Number) : x.lt .nan = false := by cases x <;> rfl

def binary64 : Format where
  prec := 53
  prec_pos := by decide
  emin := -1074

def Number.IsBinary64 : Number → Prop
  | .rat q => binary64.Representable q ∧ |q| < 2 ^ 1024
  | _ => True

/-- `negZero` tells the zero below zero, which compares equal to the other one. -/
structure Double where
  val : Number
  isBinary64 : val.IsBinary64
  negZero : Bool
  isZero : negZero = true → val = .rat 0
  deriving DecidableEq

namespace Double

@[ext] theorem ext {x y : Double} (hval : x.val = y.val) (hzero : x.negZero = y.negZero) :
    x = y := by
  cases x
  cases y
  cases hval
  cases hzero
  rfl

def ofNumber (val : Number) (h : val.IsBinary64) : Double :=
  ⟨val, h, false, fun hzero => absurd hzero Bool.false_ne_true⟩

def nan : Double := ofNumber .nan trivial

def inf (neg : Bool) : Double := ofNumber (.inf neg) trivial

theorem isBinary64_zero : (Number.rat 0).IsBinary64 :=
  ⟨binary64.representable_zero, by rw [abs_zero]; positivity⟩

def zero (neg : Bool) : Double := ⟨.rat 0, isBinary64_zero, neg, fun _ => rfl⟩

/-- Round to nearest even; past the largest finite value the result is infinite,
and what is rounded to zero keeps its sign. -/
def ofRat (q : ℚ) : Double :=
  if h : |binary64.round q| < 2 ^ 1024 then
    if binary64.round q = 0 then zero (decide (q < 0))
    else ofNumber (.rat (binary64.round q)) ⟨binary64.representable_round q, h⟩
  else inf (decide (q < 0))

def ofInt (n : Int) : Double := ofRat n

def sign (x : Double) : Bool := x.negZero || x.val.lt (.rat 0)

def mul (x y : Double) : Double :=
  match x.val, y.val with
  | .nan, _ => nan
  | _, .nan => nan
  | .inf s, .inf t => inf (s != t)
  | .inf s, .rat q => if q = 0 then nan else inf (s != decide (q < 0))
  | .rat p, .inf t => if p = 0 then nan else inf (t != decide (p < 0))
  | .rat p, .rat q => if p * q = 0 then zero (x.sign != y.sign) else ofRat (p * q)

/-- A sum that is zero is below zero only when both parts are. -/
def add (x y : Double) : Double :=
  match x.val, y.val with
  | .nan, _ => nan
  | _, .nan => nan
  | .inf s, .inf t => if s = t then inf s else nan
  | .inf s, .rat _ => inf s
  | .rat _, .inf t => inf t
  | .rat p, .rat q => if p + q = 0 then zero (x.negZero && y.negZero) else ofRat (p + q)

def lt (x y : Double) : Bool := x.val.lt y.val

def neg (x : Double) : Double :=
  match x with
  | ⟨.nan, _, _, _⟩ => nan
  | ⟨.inf s, _, _, _⟩ => inf !s
  | ⟨.rat q, h, s, _⟩ =>
    if q = 0 then zero !s
    else ofNumber (.rat (-q)) ⟨binary64.representable_neg h.1, by rw [abs_neg]; exact h.2⟩

def sub (x y : Double) : Double := x.add y.neg

/-- `none` is a division by zero. -/
def div (x y : Double) : Option Double :=
  match x.val, y.val with
  | .nan, _ => some nan
  | _, .nan => some nan
  | .inf _, .inf _ => some nan
  | .inf s, .rat q => if q = 0 then none else some (inf (s != decide (q < 0)))
  | .rat _, .inf _ => some (zero (x.sign != y.sign))
  | .rat p, .rat q =>
    if q = 0 then none
    else if p = 0 then some (zero (x.sign != y.sign))
    else some (ofRat (p / q))

/-- `static_cast` to an integer of the range from `lo` up to `hi`: toward zero,
and `none` where the result is undefined. -/
def toIntegral (lo hi : Int) (x : Double) : Option Int :=
  match x.val with
  | .rat q => if lo ≤ truncate q ∧ truncate q < hi then some (truncate q) else none
  | _ => none

def toInt64 (x : Double) : Option Int64 := (x.toIntegral (-2 ^ 63) (2 ^ 63)).map Int64.ofInt

def toUInt64 (x : Double) : Option UInt64 := (x.toIntegral 0 (2 ^ 64)).map UInt64.ofInt

end Double

theorem Double.val_ofRat (q : ℚ) : (Double.ofRat q).val =
    if |binary64.round q| < 2 ^ 1024 then .rat (binary64.round q) else .inf (decide (q < 0)) := by
  unfold Double.ofRat
  split_ifs with hfin hzero
  · rw [hzero]
    rfl
  · rfl
  · rfl

theorem Double.val_ofRat_zero : (Double.ofRat 0).val = .rat 0 := by
  rw [val_ofRat, binary64.round_zero, if_pos (by rw [abs_zero]; positivity)]

section

variable {x y : Double} {p q : ℚ}

theorem Double.val_mul (hx : x.val = .rat p) (hy : y.val = .rat q) :
    (x.mul y).val = (ofRat (p * q)).val := by
  simp only [mul, hx, hy]
  split_ifs with hzero
  · rw [hzero, val_ofRat_zero]
    rfl
  · rfl

theorem Double.val_add (hx : x.val = .rat p) (hy : y.val = .rat q) :
    (x.add y).val = (ofRat (p + q)).val := by
  simp only [add, hx, hy]
  split_ifs with hzero
  · rw [hzero, val_ofRat_zero]
    rfl
  · rfl

theorem Double.val_neg (hx : x.val = .rat p) : x.neg.val = .rat (-p) := by
  obtain ⟨val, hval, negZero, hzero⟩ := x
  cases hx
  dsimp only [neg]
  split_ifs with hp
  · rw [hp, neg_zero]
    rfl
  · rfl

theorem Double.val_sub (hx : x.val = .rat p) (hy : y.val = .rat q) :
    (x.sub y).val = (ofRat (p - q)).val := by
  rw [sub, val_add hx (val_neg hy), sub_eq_add_neg]

end

theorem Double.val_ofRat_of_lt {q : ℚ} {b : Double} (h : (Number.rat q).lt b.val)
    (hround : ¬(Double.ofRat q).val.lt b.val) : (Double.ofRat q).val = b.val := by
  have hb := b.isBinary64
  rw [val_ofRat] at hround ⊢
  cases hval : b.val with
  | nan => simp [hval] at h
  | inf s =>
    rw [hval] at h hround
    cases s with
    | true => simp [Number.lt] at h
    | false => split_ifs at hround ⊢ <;> simp_all [Number.lt]
  | rat p =>
    rw [hval] at h hround hb
    obtain ⟨hrep, hmax⟩ := hb
    have hqp : q < p := by simpa [Number.lt] using h
    have hle := binary64.round_le_of_representable hrep hqp.le
    by_cases hfin : |binary64.round q| < 2 ^ 1024
    · simp only [hfin, if_true, Number.lt, decide_eq_true_eq, not_lt] at hround ⊢
      rw [le_antisymm hle hround]
    · simp only [hfin, if_false, Number.lt, decide_eq_true_eq, not_lt] at hround
      have hnonneg : 0 ≤ binary64.round q := by
        have hmono := binary64.round_mono hround
        rwa [binary64.round_zero] at hmono
      rw [abs_of_nonneg hnonneg] at hfin
      exact absurd (hle.trans_lt (lt_of_abs_lt hmax)) hfin

theorem Double.val_ofRat_of_gt {q : ℚ} {b : Double} (h : b.val.lt (.rat q))
    (hround : ¬b.val.lt (Double.ofRat q).val) : (Double.ofRat q).val = b.val := by
  have hb := b.isBinary64
  rw [val_ofRat] at hround ⊢
  cases hval : b.val with
  | nan => simp [hval] at h
  | inf s =>
    rw [hval] at h hround
    cases s with
    | true => split_ifs at hround ⊢ <;> simp_all [Number.lt]
    | false => simp [Number.lt] at h
  | rat p =>
    rw [hval] at h hround hb
    obtain ⟨hrep, hmax⟩ := hb
    have hpq : p < q := by simpa [Number.lt] using h
    have hle := binary64.le_round_of_representable hrep hpq.le
    by_cases hfin : |binary64.round q| < 2 ^ 1024
    · simp only [hfin, if_true, Number.lt, decide_eq_true_eq, not_lt] at hround ⊢
      rw [le_antisymm hround hle]
    · simp only [hfin, if_false, Number.lt, Bool.not_eq_true', decide_eq_false_iff_not,
        not_not] at hround
      have hnonpos : binary64.round q ≤ 0 := by
        have hmono := binary64.round_mono hround.le
        rwa [binary64.round_zero] at hmono
      rw [abs_of_nonpos hnonpos] at hfin
      exact absurd ((neg_le_neg hle).trans_lt (neg_lt.mp (neg_lt_of_abs_lt hmax))) hfin

def significand (fracBits : Nat) (neg : Bool) (e f : Nat) : Int :=
  (if neg then -1 else 1) * (if e = 0 then (f : Int) else 2 ^ fracBits + f)

def Number.ofFields (expMax fracBits bias : Nat) (neg : Bool) (e f : Nat) : Number :=
  if e = expMax then
    if f = 0 then .inf neg else .nan
  else .rat (significand fracBits neg e f * 2 ^ ((max e 1 : Int) - bias - fracBits))

theorem abs_significand_lt {fracBits : Nat} (neg : Bool) (e : Nat) {f : Nat}
    (hf : f < 2 ^ fracBits) : |significand fracBits neg e f| < 2 ^ (fracBits + 1) := by
  have hf' : (f : Int) < 2 ^ fracBits := by exact_mod_cast hf
  have hsign : |(if neg then -1 else 1 : Int)| = 1 := by cases neg <;> rfl
  rw [significand, abs_mul, hsign, one_mul, pow_succ]
  split_ifs
  · rw [abs_of_nonneg (by positivity)]
    omega
  · rw [abs_of_nonneg (by positivity)]
    omega

theorem isBinary64_of_fields {m e : Int} (hm : |m| < 2 ^ 53) (hlo : -1074 ≤ e) (hhi : e ≤ 971) :
    (Number.rat (m * 2 ^ e)).IsBinary64 := by
  constructor
  · exact binary64.representable_of_abs_le hm.le hlo
  · have hpos : (0 : ℚ) < 2 ^ e := by positivity
    have hcast : |(m : ℚ)| < 2 ^ 53 := by exact_mod_cast hm
    rw [abs_mul, abs_of_pos hpos]
    calc
      |(m : ℚ)| * 2 ^ e < 2 ^ 53 * 2 ^ e := mul_lt_mul_of_pos_right hcast hpos
      _ ≤ 2 ^ 53 * 2 ^ (971 : ℤ) :=
        mul_le_mul_of_nonneg_left (zpow_le_zpow_right₀ (by norm_num) hhi) (by positivity)
      _ = 2 ^ 1024 := by rw [show (971 : ℤ) = (971 : ℕ) from rfl, zpow_natCast, ← pow_add]

theorem Number.ofFields_isBinary64 {expMax fracBits bias : Nat} (neg : Bool) {e f : Nat}
    (hf : f < 2 ^ fracBits) (he : e ≤ expMax) (hfrac : fracBits ≤ 52)
    (hlo : bias + fracBits ≤ 1075) (hhi : expMax ≤ 972 + bias + fracBits) :
    (Number.ofFields expMax fracBits bias neg e f).IsBinary64 := by
  unfold Number.ofFields
  split_ifs with hmax hzero
  · trivial
  · trivial
  · have hpow : (2 : Int) ^ (fracBits + 1) ≤ 2 ^ 53 := pow_le_pow_right₀ (by norm_num) (by omega)
    exact isBinary64_of_fields ((abs_significand_lt neg e hf).trans_le hpow) (by omega) (by omega)

def Double.ofBits64 (w : UInt64) : Double where
  val := Number.ofFields 2047 52 1023 (w.toNat / 2 ^ 63 = 1) (w.toNat / 2 ^ 52 % 2 ^ 11)
    (w.toNat % 2 ^ 52)
  isBinary64 := Number.ofFields_isBinary64 _ (Nat.mod_lt _ (by decide))
    (Nat.le_of_lt_succ (Nat.mod_lt _ (by decide))) (by decide) (by decide) (by decide)
  negZero := w = 0x8000000000000000
  isZero h := by
    cases of_decide_eq_true h
    decide +kernel

def Double.ofBits32 (w : UInt32) : Double where
  val := Number.ofFields 255 23 127 (w.toNat / 2 ^ 31 = 1) (w.toNat / 2 ^ 23 % 2 ^ 8)
    (w.toNat % 2 ^ 23)
  isBinary64 := Number.ofFields_isBinary64 _ (Nat.mod_lt _ (by decide))
    (Nat.le_of_lt_succ (Nat.mod_lt _ (by decide))) (by decide) (by decide) (by decide)
  negZero := w = 0x80000000
  isZero h := by
    cases of_decide_eq_true h
    decide +kernel

example : (Double.ofBits32 0x4048F5C3).val = .rat (13170115 / 2 ^ 22) := by decide +kernel

def stripZeros (cs : List Char) : List Char := (cs.reverse.dropWhile (· = '0')).reverse

def withPoint (whole frac : List Char) : List Char :=
  match stripZeros frac with
  | [] => whole
  | cs => whole ++ '.' :: cs

/-- Six significant digits of a positive rational and its decimal exponent. -/
def sixDigits (q : ℚ) : Nat × Int :=
  let x := Int.log 10 q
  let d := (nearestEven (q / 10 ^ (x - 5))).toNat
  if d = 10 ^ 6 then (10 ^ 5, x + 1) else (d, x)

def printPos (q : ℚ) : List Char :=
  let (d, x) := sixDigits q
  let ds := Nat.toDigits 10 d
  if x < -4 ∨ 6 ≤ x then
    let xs := Nat.toDigits 10 x.natAbs
    withPoint (ds.take 1) (ds.drop 1) ++ ['e', if x < 0 then '-' else '+'] ++
      List.replicate (2 - xs.length) '0' ++ xs
  else if x < 0 then
    withPoint ['0'] (List.replicate (x.natAbs - 1) '0' ++ ds)
  else withPoint (ds.take (x.toNat + 1)) (ds.drop (x.toNat + 1))

/-- `operator<<` of a stream with default formatting. -/
def Double.print (x : Double) : String :=
  match x.val with
  | .nan => "nan"
  | .inf s => if s then "-inf" else "inf"
  | .rat q =>
    if q = 0 then if x.negZero then "-0" else "0"
    else if q < 0 then String.ofList ('-' :: printPos (-q))
    else String.ofList (printPos q)

end IONet.Core
