import Mathlib.Data.Nat.Digits.Defs
import Mathlib.Data.Nat.Bitwise
import Mathlib.Tactic.Ring

namespace Lib.Bytes

def leBytes : Nat → Nat → List UInt8
  | 0, _ => []
  | n + 1, v => UInt8.ofNat v :: leBytes n (v / 256)

def beBytes (n v : Nat) : List UInt8 := (leBytes n v).reverse

def leVal (bs : List UInt8) : Nat := Nat.ofDigits 256 (bs.map UInt8.toNat)

def beVal (bs : List UInt8) : Nat := leVal bs.reverse

@[simp] theorem leVal_nil : leVal [] = 0 := rfl

@[simp] theorem leVal_cons (b : UInt8) (bs : List UInt8) :
    leVal (b :: bs) = b.toNat + 256 * leVal bs := by
  simp [leVal, Nat.ofDigits_cons]

@[simp] theorem beVal_nil : beVal [] = 0 := rfl

@[simp] theorem length_leBytes (n v : Nat) : (leBytes n v).length = n := by
  induction n generalizing v with
  | zero => rfl
  | succ n ih => simp [leBytes, ih]

@[simp] theorem length_beBytes (n v : Nat) : (beBytes n v).length = n := by
  simp [beBytes]

theorem leVal_lt (bs : List UInt8) : leVal bs < 256 ^ bs.length := by
  induction bs with
  | nil => simp
  | cons b bs ih =>
    have hb := b.toNat_lt
    rw [leVal_cons, List.length_cons, pow_succ]
    omega

theorem beVal_lt (bs : List UInt8) : beVal bs < 256 ^ bs.length := by
  simpa [beVal] using leVal_lt bs.reverse

theorem leVal_append (as bs : List UInt8) :
    leVal (as ++ bs) = leVal as + 256 ^ as.length * leVal bs := by
  induction as with
  | nil => simp
  | cons a as ih =>
    rw [List.cons_append, leVal_cons, ih, leVal_cons, List.length_cons, pow_succ]
    ring

theorem beVal_cons (b : UInt8) (bs : List UInt8) :
    beVal (b :: bs) = b.toNat * 256 ^ bs.length + beVal bs := by
  simp only [beVal, List.reverse_cons, leVal_append, leVal_cons, leVal_nil, List.length_reverse]
  ring

theorem beVal_concat (bs : List UInt8) (b : UInt8) :
    beVal (bs ++ [b]) = beVal bs * 256 + b.toNat := by
  simp only [beVal, List.reverse_append, List.reverse_cons, List.reverse_nil, List.nil_append,
    List.singleton_append, leVal_cons]
  ring

theorem leVal_leBytes (n v : Nat) : leVal (leBytes n v) = v % 256 ^ n := by
  induction n generalizing v with
  | zero => simp [leBytes, Nat.mod_one]
  | succ n ih =>
    have hbyte : (UInt8.ofNat v).toNat = v % 256 := by simp
    rw [leBytes, leVal_cons, ih, hbyte, pow_succ', Nat.mod_mul]

theorem beVal_beBytes (n v : Nat) : beVal (beBytes n v) = v % 256 ^ n := by
  simp [beVal, beBytes, leVal_leBytes]

theorem leBytes_leVal (bs : List UInt8) : leBytes bs.length (leVal bs) = bs := by
  induction bs with
  | nil => rfl
  | cons b bs ih =>
    have hb := b.toNat_lt
    have hdiv : (b.toNat + 256 * leVal bs) / 256 = leVal bs := by omega
    have hbyte : UInt8.ofNat (b.toNat + 256 * leVal bs) = b := by
      apply UInt8.toNat_inj.mp
      simp only [UInt8.toNat_ofNat']
      omega
    rw [leVal_cons, List.length_cons, leBytes, hdiv, ih, hbyte]

theorem beBytes_beVal (bs : List UInt8) : beBytes bs.length (beVal bs) = bs := by
  have h := leBytes_leVal bs.reverse
  rw [List.length_reverse] at h
  rw [beBytes, beVal, h, List.reverse_reverse]

theorem getElem_leBytes (n v j : Nat) (hj : j < (leBytes n v).length) :
    (leBytes n v)[j] = UInt8.ofNat (v / 256 ^ j) := by
  induction n generalizing v j with
  | zero => simp at hj
  | succ n ih =>
    cases j with
    | zero => simp [leBytes]
    | succ j =>
      have hdiv : v / 256 / 256 ^ j = v / 256 ^ (j + 1) := by
        rw [Nat.div_div_eq_div_mul, pow_succ']
      simp only [leBytes, List.getElem_cons_succ]
      rw [ih, hdiv]

theorem testBit_byte (v j r : Nat) (hr : r < 8) :
    (UInt8.ofNat (v / 256 ^ j)).toNat.testBit r = v.testBit (8 * j + r) := by
  have hpow : (256 : Nat) ^ j = 2 ^ (8 * j) := by rw [show 256 = 2 ^ 8 from rfl, ← pow_mul]
  rw [UInt8.toNat_ofNat', hpow, Nat.testBit_mod_two_pow, Nat.testBit_div_two_pow, Nat.add_comm r]
  simp [hr]

/-- Two numbers are byte reversals of one another when their bits correspond. -/
theorem leBytes_eq_beBytes {n v w : Nat}
    (h : ∀ i, i < 8 * n → v.testBit i = w.testBit (8 * (n - 1 - i / 8) + i % 8)) :
    leBytes n v = beBytes n w := by
  apply List.ext_getElem
  · simp
  · intro j hj hj'
    rw [length_leBytes] at hj
    simp only [beBytes, List.getElem_reverse, getElem_leBytes, length_leBytes]
    apply UInt8.toNat_inj.mp
    apply Nat.eq_of_testBit_eq
    intro r
    by_cases hr : r < 8
    · have hdiv : (8 * j + r) / 8 = j := by omega
      have hmod : (8 * j + r) % 8 = r := by omega
      rw [testBit_byte _ _ _ hr, testBit_byte _ _ _ hr, h _ (by omega), hdiv, hmod]
    · have hpow : 2 ^ 8 ≤ 2 ^ r := Nat.pow_le_pow_right (by decide) (by omega)
      rw [Nat.testBit_lt_two_pow (lt_of_lt_of_le (UInt8.toNat_lt _) hpow),
        Nat.testBit_lt_two_pow (lt_of_lt_of_le (UInt8.toNat_lt _) hpow)]

end Lib.Bytes
