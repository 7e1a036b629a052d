import Mathlib.Algebra.Order.Floor.Ring
import Mathlib.Algebra.Ring.Int.Parity
import Mathlib.Data.Int.Log
import Mathlib.Tactic.FieldSimp
import Mathlib.Tactic.Linarith
import Mathlib.Tactic.Ring

/-!
# Rounding to a number of significant bits

`nearest p x` is the number of `p` significant bits that is nearest to `x`, the even one of
two that are equally near. The exponent is not bounded: nothing overflows, and there are no
subnormal numbers. Integers up to `2 ^ p` are such numbers (`nearest_intCast`), and the next
one is not: a counter that is stepped by one gets stuck there (`nearest_pow_add_one`).

A double is a number of 53 bits.
-/

namespace Base

variable {K : Type*} [Field K] [LinearOrder K] [IsStrictOrderedRing K] [FloorRing K]

/-- The nearest integer, and the even one for a half. -/
def roundEven (x : K) : ℤ :=
  if Int.fract x < 1 / 2 ∨ Int.fract x = 1 / 2 ∧ Even ⌊x⌋ then ⌊x⌋ else ⌊x⌋ + 1

/-- The distance of the numbers of `p` bits around `x`. -/
def ulp (p : ℕ) (x : K) : K := 2 ^ (Int.log 2 |x| + 1 - p)

/-- The nearest number of `p` bits. -/
def nearest (p : ℕ) (x : K) : K := roundEven (x / ulp p x) * ulp p x

/-- The nearest double. -/
abbrev toDouble (x : K) : K := nearest 53 x

/-! ## The nearest integer -/

theorem roundEven_intCast (n : ℤ) : roundEven (n : K) = n := by
  have hlt : Int.fract (n : K) < 1 / 2 := by
    rw [Int.fract_intCast]
    norm_num
  rw [roundEven, if_pos (.inl hlt), Int.floor_intCast]

theorem roundEven_nonpos {x : K} (hx : x ≤ 0) : roundEven x ≤ 0 := by
  rcases hx.eq_or_lt with rfl | hneg
  · have hzero := roundEven_intCast (K := K) 0
    rw [Int.cast_zero] at hzero
    exact hzero.le
  · have hfloor : ⌊x⌋ < 0 := Int.floor_lt.mpr (by exact_mod_cast hneg)
    unfold roundEven
    split <;> omega

/-- Halfway from an even number the even number is taken. -/
theorem roundEven_add_half {n : ℤ} (hn : Even n) : roundEven ((n : K) + 1 / 2) = n := by
  have hhalf : ⌊(n : K) + 1 / 2⌋ = n := by
    rw [Int.floor_eq_iff]
    constructor <;> linarith
  have hfract : Int.fract ((n : K) + 1 / 2) = 1 / 2 := by
    rw [Int.fract, hhalf]
    ring
  rw [roundEven, hhalf, if_pos (.inr ⟨hfract, hn⟩)]

/-! ## The nearest number of `p` bits -/

theorem ulp_pos (p : ℕ) (x : K) : 0 < ulp p x := zpow_pos two_pos _

/-- What has `p` bits is not rounded. -/
theorem nearest_of_eq_mul {p : ℕ} {x : K} {n : ℤ} (h : x = n * ulp p x) : nearest p x = x := by
  have hdiv : x / ulp p x = n := by
    rw [div_eq_iff (ulp_pos p x).ne']
    exact h
  rw [nearest, hdiv, roundEven_intCast]
  exact h.symm

theorem nearest_nonpos {p : ℕ} {x : K} (hx : x ≤ 0) : nearest p x ≤ 0 := by
  have hround : ((roundEven (x / ulp p x) : ℤ) : K) ≤ 0 := by
    exact_mod_cast roundEven_nonpos (div_nonpos_of_nonpos_of_nonneg hx (ulp_pos p x).le)
  exact mul_nonpos_of_nonpos_of_nonneg hround (ulp_pos p x).le

/-- The exponent of an integer. -/
theorem log_abs_intCast (n : ℤ) : Int.log 2 |(n : K)| = Nat.log 2 n.natAbs := by
  have habs : |(n : K)| = (n.natAbs : K) := by
    rw [← Int.cast_abs, Int.abs_eq_natAbs, Int.cast_natCast]
  rw [habs, Int.log_natCast]

/-- Integers of up to `p` bits are exact. -/
theorem nearest_of_lt {p : ℕ} {n : ℤ} (h : n.natAbs < 2 ^ p) : nearest p (n : K) = n := by
  rcases eq_or_ne n 0 with rfl | hne
  · exact nearest_of_eq_mul (n := 0) (by simp)
  have hlog : Nat.log 2 n.natAbs < p := Nat.log_lt_of_lt_pow (Int.natAbs_ne_zero.mpr hne) h
  refine nearest_of_eq_mul (n := n * 2 ^ (p - 1 - Nat.log 2 n.natAbs)) ?_
  have hexp : (((p - 1 - Nat.log 2 n.natAbs : ℕ) : ℤ)) +
      ((Nat.log 2 n.natAbs : ℤ) + 1 - p) = 0 := by omega
  have hone : (2 : K) ^ (p - 1 - Nat.log 2 n.natAbs) * ulp p (n : K) = 1 := by
    rw [ulp, log_abs_intCast, ← zpow_natCast, ← zpow_add₀ two_ne_zero, hexp, zpow_zero]
  push_cast
  rw [mul_assoc, hone, mul_one]

/-- Beyond that the distance is a whole number. -/
theorem ulp_intCast {p : ℕ} {n : ℤ} (h : 2 ^ p ≤ n.natAbs) :
    ulp p (n : K) = ((2 ^ (Nat.log 2 n.natAbs + 1 - p) : ℤ) : K) := by
  have hlog : p ≤ Nat.log 2 n.natAbs := Nat.le_log_of_pow_le one_lt_two h
  have hexp : ((Nat.log 2 n.natAbs : ℤ) + 1 - p) = ((Nat.log 2 n.natAbs + 1 - p : ℕ) : ℤ) := by
    omega
  rw [ulp, log_abs_intCast, hexp, zpow_natCast]
  push_cast
  rfl

/-- An integer is rounded to an integer. -/
theorem exists_nearest_intCast (p : ℕ) (n : ℤ) : ∃ m : ℤ, nearest p (n : K) = m := by
  rcases lt_or_ge n.natAbs (2 ^ p) with hsmall | hbig
  · exact ⟨n, nearest_of_lt hsmall⟩
  · refine ⟨roundEven ((n : K) / ulp p (n : K)) * 2 ^ (Nat.log 2 n.natAbs + 1 - p), ?_⟩
    rw [nearest, Int.cast_mul]
    exact congrArg _ (ulp_intCast hbig)

/-- The largest number up to which all integers are exact. -/
theorem nearest_pow {p : ℕ} (hp : 1 ≤ p) : nearest p ((2 ^ p : ℤ) : K) = (2 ^ p : ℤ) := by
  have hlog : Nat.log 2 (2 ^ p : ℤ).natAbs = p := by
    rw [Int.natAbs_pow]
    exact Nat.log_pow one_lt_two p
  have hulp : ulp p ((2 ^ p : ℤ) : K) = ((2 : ℤ) : K) := by
    rw [ulp_intCast (by rw [Int.natAbs_pow]; exact le_refl _), hlog, Nat.add_sub_cancel_left,
      pow_one]
  refine nearest_of_eq_mul (n := 2 ^ (p - 1)) ?_
  rw [hulp, ← Int.cast_mul, ← pow_succ, Nat.sub_add_cancel hp]

theorem nearest_intCast {p : ℕ} (hp : 1 ≤ p) {n : ℤ} (hlow : 0 ≤ n) (h : n ≤ 2 ^ p) :
    nearest p (n : K) = n := by
  rcases h.eq_or_lt with rfl | hlt
  · exact nearest_pow hp
  · refine nearest_of_lt ?_
    have habs : ((n.natAbs : ℕ) : ℤ) < ((2 ^ p : ℕ) : ℤ) := by
      rw [Int.natAbs_of_nonneg hlow]
      exact_mod_cast hlt
    exact_mod_cast habs

/-- **A counter gets stuck.** The next integer is halfway between two numbers of `p` bits. -/
theorem nearest_pow_add_one {p : ℕ} (hp : 2 ≤ p) :
    nearest p (((2 ^ p : ℤ) : K) + 1) = (2 ^ p : ℤ) := by
  have hcast : ((2 ^ p : ℤ) : K) + 1 = ((2 ^ p + 1 : ℤ) : K) := by push_cast; rfl
  have hnat : (2 ^ p + 1 : ℤ).natAbs = 2 ^ p + 1 := by
    have h : (2 ^ p + 1 : ℤ) = ((2 ^ p + 1 : ℕ) : ℤ) := by push_cast; rfl
    rw [h, Int.natAbs_natCast]
  have hlog : Nat.log 2 (2 ^ p + 1 : ℤ).natAbs = p := by
    have hfour : 4 ≤ 2 ^ p := Nat.pow_le_pow_right two_pos hp
    rw [hnat, Nat.log_eq_iff (.inl (by omega)), pow_succ]
    omega
  have hulp : ulp p ((2 ^ p + 1 : ℤ) : K) = 2 := by
    rw [ulp_intCast (by rw [hnat]; exact Nat.le_succ _), hlog, Nat.add_sub_cancel_left, pow_one]
    exact Int.cast_ofNat 2
  have heven : Even (2 ^ (p - 1) : ℤ) := (even_two).pow_of_ne_zero (by omega)
  have hhalf : ((2 ^ p + 1 : ℤ) : K) / 2 = ((2 ^ (p - 1) : ℤ) : K) + 1 / 2 := by
    have hpow : (2 : K) ^ p = 2 * 2 ^ (p - 1) := by
      rw [← pow_succ', Nat.sub_add_cancel (by omega)]
    push_cast
    rw [hpow]
    field_simp
  rw [hcast, nearest, hulp, hhalf, roundEven_add_half heven]
  have hpow : (2 : ℤ) ^ p = 2 ^ (p - 1) * 2 := by rw [← pow_succ, Nat.sub_add_cancel (by omega)]
  rw [hpow]
  push_cast
  rfl

end Base
