import ForgeQueue.Model.Backoff
import Mathlib.Tactic.Linarith
import Mathlib.Tactic.NormNum

/-!
# The two backoffs agree until Go's overflows

The script's delay is the base, doubled for each attempt after the first and cut at the
cap. Go computes the same with 64 bits and compares with the cap at the end only, so it
agrees as long as the doubled base fits, or wraps around to something above the cap
again. For the largest attempt count there is, its loop does not end.
-/

namespace ForgeQueue

/-- `base * 2 ^ (attempts - 1)` in nanoseconds, as a number. -/
def exactDelay (attempts : Int32) (base : Int64) : ℤ :=
  base.toInt * 2 ^ (attempts.toInt - 1).toNat

/-- The two computations give the exact delay cut at the cap; Go's lies between the base
(or the cap) and the cap and is not less than for fewer attempts. -/
structure BackoffsAgree (attempts : Int32) (base cap : Int64) : Prop where
  script : scriptBackoff attempts.toInt (seconds base.toInt) (seconds cap.toInt) =
    seconds (min cap.toInt (exactDelay attempts base))
  go : ∃ delay, BackoffReturns attempts base cap delay ∧
    delay.toInt = min cap.toInt (exactDelay attempts base) ∧
    min base.toInt cap.toInt ≤ delay.toInt ∧ delay.toInt ≤ cap.toInt ∧
    ∀ fewer delay', 1 ≤ fewer.toInt → fewer ≤ attempts →
      BackoffReturns fewer base cap delay' → delay' ≤ delay

/-! ## The script -/

theorem seconds_mono {a b : ℤ} (h : a ≤ b) : seconds a ≤ seconds b := by
  unfold seconds
  have : (a : ℚ) ≤ b := by exact_mod_cast h
  linarith

/-- The script's delay is exact for every attempt count. -/
theorem scriptBackoff_exact {attempts : Int32} (ha : 1 ≤ attempts.toInt) (base cap : Int64) :
    scriptBackoff attempts.toInt (seconds base.toInt) (seconds cap.toInt) =
      seconds (min cap.toInt (exactDelay attempts base)) := by
  obtain ⟨n, hn⟩ := Int.eq_ofNat_of_zero_le (by omega : 0 ≤ attempts.toInt)
  have hone : 1 ≤ n := by omega
  have hexact : seconds (exactDelay attempts base) = seconds base.toInt * 2 ^ (n - 1) := by
    have hturns : (attempts.toInt - 1).toNat = n - 1 := by omega
    rw [exactDelay, hturns, seconds, seconds]
    push_cast
    ring
  have hscript := scriptBackoff_eq hone (seconds base.toInt) (seconds cap.toInt)
  rw [hn]
  refine (hscript.trans ?_)
  rw [← hexact]
  exact (Monotone.map_min fun _ _ h => seconds_mono h).symm

/-! ## Go -/

/-- The delay as it wraps around in 64 bits. -/
def wrappedDelay (attempts : Int32) (base : Int64) : ℤ := (exactDelay attempts base).bmod (2 ^ 64)

theorem wrappedDelay_of_lt {attempts : Int32} {base : Int64} (hb : 0 < base.toInt)
    (h : exactDelay attempts base < 2 ^ 63) :
    wrappedDelay attempts base = exactDelay attempts base := by
  have hpos : 0 ≤ exactDelay attempts base := by
    unfold exactDelay
    positivity
  exact Int.bmod_eq_of_le (by omega) (by omega)

/-- Fewer attempts, a smaller exact delay. -/
theorem exactDelay_mono {fewer attempts : Int32} {base : Int64} (hb : 0 < base.toInt)
    (h : fewer ≤ attempts) : exactDelay fewer base ≤ exactDelay attempts base := by
  have hle := Int32.le_iff_toInt_le.mp h
  refine Int.mul_le_mul_of_nonneg_left ?_ hb.le
  exact pow_le_pow_right₀ (by norm_num) (by omega)

theorem le_exactDelay (attempts : Int32) {base : Int64} (hb : 0 < base.toInt) :
    base.toInt ≤ exactDelay attempts base := by
  have hone : (1 : ℤ) ≤ 2 ^ (attempts.toInt - 1).toNat := one_le_pow₀ (by norm_num)
  exact le_mul_of_one_le_right hb.le hone

/-- After 64 doublings nothing is left. -/
theorem wrappedDelay_of_le {attempts : Int32} (base : Int64) (h : 65 ≤ attempts.toInt) :
    wrappedDelay attempts base = 0 := by
  have hsplit : (attempts.toInt - 1).toNat = (attempts.toInt - 65).toNat + 64 := by omega
  have hexact : exactDelay attempts base =
      base.toInt * 2 ^ (attempts.toInt - 65).toNat * ((2 ^ 64 : ℕ) : ℤ) := by
    rw [exactDelay, hsplit, pow_add, mul_assoc]
    norm_num
  rw [wrappedDelay, hexact]
  exact Int.mul_bmod_left _ _

/-- Below the largest attempt count `backoffDelay` returns the wrapped delay, cut at the
cap. -/
theorem backoffReturns_wrapped {attempts : Int32} (ha : 1 ≤ attempts.toInt)
    (hmax : attempts.toInt < 2 ^ 31 - 1) (base cap : Int64) :
    ∃ delay, BackoffReturns attempts base cap delay ∧
      delay.toInt = min cap.toInt (wrappedDelay attempts base) := by
  have htwo : (2 : Int32).toInt = 2 := rfl
  obtain ⟨result, hres, hval⟩ := backoffLoop_eq hmax (attempts.toInt - 1).toNat 2 base
    (by rw [htwo]; omega)
  change result.toInt = wrappedDelay attempts base at hval
  refine ⟨if cap < result then cap else result, ⟨_, by rw [backoffDelay, hres]; rfl⟩, ?_⟩
  rw [← hval]
  split
  · next hlt =>
    exact (min_eq_left (Int64.lt_iff_toInt_lt.mp hlt).le).symm
  · next hle =>
    refine (min_eq_right (not_lt.mp fun hlt => hle ?_)).symm
    exact Int64.lt_iff_toInt_lt.mpr hlt

/-- For the largest one it does not return. -/
theorem backoffReturns_lt {attempts : Int32} {base cap delay : Int64}
    (h : BackoffReturns attempts base cap delay) : attempts.toInt < 2 ^ 31 - 1 := by
  obtain ⟨fuel, h⟩ := h
  have hle := attempts.toInt_lt
  by_contra hmax
  have heq : attempts.toInt = 2 ^ 31 - 1 := by omega
  rw [backoffDelay, backoffLoop_max heq] at h
  cases h

/-- What `backoffDelay` returns, if it does. -/
theorem BackoffReturns.eq_wrapped {attempts : Int32} {base cap delay : Int64}
    (ha : 1 ≤ attempts.toInt) (h : BackoffReturns attempts base cap delay) :
    delay.toInt = min cap.toInt (wrappedDelay attempts base) := by
  obtain ⟨delay', hret, hval⟩ := backoffReturns_wrapped ha (backoffReturns_lt h) base cap
  rw [h.unique hret]
  exact hval

/-- **The two backoffs agree** exactly when the doubled base fits into 64 bits, or wraps
around to the cap or more. -/
theorem backoffs_agree_iff_fits {attempts : Int32} {base cap : Int64} (ha : 1 ≤ attempts.toInt)
    (hb : 0 < base.toInt) (hc : 0 < cap.toInt) :
    BackoffsAgree attempts base cap ↔
      exactDelay attempts base < 2 ^ 63 ∨
        cap.toInt ≤ (exactDelay attempts base).bmod (2 ^ 64) := by
  have hcap := cap.toInt_lt
  change _ ↔ _ ∨ cap.toInt ≤ wrappedDelay attempts base
  constructor
  · rintro ⟨-, delay, hret, hval, -⟩
    by_cases hfit : exactDelay attempts base < 2 ^ 63
    · exact .inl hfit
    · -- the exact delay is above every cap
      have hmin : min cap.toInt (exactDelay attempts base) = cap.toInt := min_eq_left (by omega)
      rw [hret.eq_wrapped ha, hmin] at hval
      exact .inr (min_eq_left_iff.mp hval)
  · intro hcond
    have hmax : attempts.toInt < 2 ^ 31 - 1 := by
      by_contra hlarge
      have hzero := wrappedDelay_of_le base (by omega : 65 ≤ attempts.toInt)
      rcases hcond with hfit | hwrap
      · have hexact := wrappedDelay_of_lt hb hfit
        have hle := le_exactDelay attempts hb
        omega
      · omega
    obtain ⟨delay, hret, hval⟩ := backoffReturns_wrapped ha hmax base cap
    have hmin : delay.toInt = min cap.toInt (exactDelay attempts base) := by
      rcases hcond with hfit | hwrap
      · rw [hval, wrappedDelay_of_lt hb hfit]
      · by_cases hfit : exactDelay attempts base < 2 ^ 63
        · rw [hval, wrappedDelay_of_lt hb hfit]
        · rw [hval, min_eq_left hwrap, min_eq_left (by omega)]
    refine ⟨scriptBackoff_exact ha base cap, delay, hret, hmin, ?_, ?_, ?_⟩
    · rw [hmin, min_comm]
      exact min_le_min_left _ (le_exactDelay attempts hb)
    · rw [hmin]
      exact min_le_left _ _
    · intro fewer delay' hf hle hret'
      rw [Int64.le_iff_toInt_le, hret'.eq_wrapped hf, hmin]
      refine le_min (min_le_left _ _) ?_
      by_cases hfit : exactDelay attempts base < 2 ^ 63
      · have hmono := exactDelay_mono hb hle
        rw [wrappedDelay_of_lt hb (by omega)]
        exact (min_le_right _ _).trans hmono
      · exact (min_le_left _ _).trans (by omega)

/-- The tenth attempt with the pool's defaults, one second and one minute. -/
theorem backoffs_agree_iff_fits_tenth : BackoffsAgree 10 1000000000 60000000000 :=
  (backoffs_agree_iff_fits (by decide) (by decide) (by decide)).mpr (.inl (by decide +kernel))

/-- **Overflow.** With the pool's defaults the 35th delay is negative in Go, and the
script's is the cap. The loop for the largest attempt count does not end. -/
theorem backoffDelay_overflows :
    (∃ delay, BackoffReturns 35 1000000000 60000000000 delay ∧ delay.toInt < 0) ∧
      scriptBackoff (35 : Int32).toInt (seconds 1000000000) (seconds 60000000000) = 60 ∧
      ¬ BackoffsAgree 35 1000000000 60000000000 ∧
      (∀ base cap delay, ¬ BackoffReturns 2147483647 base cap delay) := by
  have hneg : backoffDelay 35 35 1000000000 60000000000 = some (-1266874889709551616) := by
    decide +kernel
  refine ⟨⟨_, ⟨35, hneg⟩, by decide⟩, ?_, ?_, ?_⟩
  · rw [show (1000000000 : ℤ) = (1000000000 : Int64).toInt from rfl,
      show (60000000000 : ℤ) = (60000000000 : Int64).toInt from rfl,
      scriptBackoff_exact (by decide)]
    decide +kernel
  · rintro ⟨-, delay, hret, hval, -⟩
    rw [hret.unique ⟨35, hneg⟩] at hval
    exact absurd hval (by decide +kernel)
  · intro base cap delay hret
    exact absurd (backoffReturns_lt hret) (by decide)

end ForgeQueue
