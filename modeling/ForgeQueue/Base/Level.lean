import Mathlib.Algebra.Order.Field.Basic
import Mathlib.Tactic.Linarith
import Mathlib.Tactic.Ring

/-!
# The level of a vessel that is filled at a constant rate

A vessel of capacity `cap` that held `x` at time `s` and is filled at `rate` holds
`level cap rate x s t` at time `t`. Reading the level and starting again from the reading
changes nothing (`level_level`), over a stretch of time it rises by no more than what flows
in (`level_le_add`), and after enough time the vessel is full whatever it held
(`level_full`).
-/

namespace Base

variable {K : Type*} [Field K] [LinearOrder K] [IsStrictOrderedRing K]

/-- The level at time `t`. -/
def level (cap rate x s t : K) : K := min cap (x + (t - s) * rate)

variable {cap rate x s t t' : K}

omit [IsStrictOrderedRing K] in
theorem level_le_cap : level cap rate x s t ≤ cap := min_le_left _ _

omit [IsStrictOrderedRing K] in
theorem level_self (hx : x ≤ cap) : level cap rate x s s = x := by
  rw [level, sub_self, zero_mul, add_zero, min_eq_right hx]

theorem level_nonneg (hcap : 0 ≤ cap) (hrate : 0 ≤ rate) (hx : 0 ≤ x) (hs : s ≤ t) :
    0 ≤ level cap rate x s t := by
  have hflow : 0 ≤ (t - s) * rate := mul_nonneg (sub_nonneg.mpr hs) hrate
  exact le_min hcap (by linarith)

theorem level_mono (hrate : 0 ≤ rate) (ht : t ≤ t') :
    level cap rate x s t ≤ level cap rate x s t' := by
  have hflow : (t - s) * rate ≤ (t' - s) * rate :=
    mul_le_mul_of_nonneg_right (by linarith) hrate
  exact min_le_min_left cap (by linarith)

/-- Of two vessels the one that held more holds more, up to the capacity. -/
theorem level_le_level {y : K} (hxy : x ≤ y) : level cap rate x s t ≤ level cap rate y s t :=
  min_le_min_left cap (by linarith)

theorem level_lt_level {y : K} (hxy : x < y) (hpart : level cap rate x s t < cap) :
    level cap rate x s t < level cap rate y s t := by
  have hx : x + (t - s) * rate < cap := by
    by_contra hfull
    exact absurd (min_eq_left (not_lt.mp hfull)) hpart.ne
  rw [level, min_eq_right hx.le]
  exact lt_min hx (by linarith)

/-- Over a stretch of time the level rises by no more than what flows in. -/
theorem level_le_add (hrate : 0 ≤ rate) (ht : t ≤ t') :
    level cap rate x s t' ≤ level cap rate x s t + (t' - t) * rate := by
  have hflow : 0 ≤ (t' - t) * rate := mul_nonneg (sub_nonneg.mpr ht) hrate
  unfold level
  rcases le_total cap (x + (t - s) * rate) with hfull | hpart
  · rw [min_eq_left hfull]
    exact (min_le_left _ _).trans (by linarith)
  · rw [min_eq_right hpart]
    refine (min_le_right _ _).trans (le_of_eq ?_)
    ring

/-- Starting again from a reading changes nothing. -/
theorem level_level (hrate : 0 ≤ rate) (ht : t ≤ t') :
    level cap rate (level cap rate x s t) t t' = level cap rate x s t' := by
  have hflow : 0 ≤ (t' - t) * rate := mul_nonneg (sub_nonneg.mpr ht) hrate
  have hsum : x + (t' - s) * rate = x + (t - s) * rate + (t' - t) * rate := by
    ring
  unfold level
  rw [hsum]
  rcases le_total cap (x + (t - s) * rate) with hfull | hpart
  · rw [min_eq_left hfull, min_eq_left (by linarith), min_eq_left (by linarith)]
  · rw [min_eq_right hpart]

theorem level_cap (hrate : 0 ≤ rate) (ht : s ≤ t) : level cap rate cap s t = cap := by
  have hflow : 0 ≤ (t - s) * rate := mul_nonneg (sub_nonneg.mpr ht) hrate
  exact min_eq_left (by linarith)

/-- After the time it takes to fill it, the vessel is full. -/
theorem level_full {d : K} (hx : 0 ≤ x) (hrate : 0 ≤ rate) (hd : cap ≤ rate * d)
    (ht : d ≤ t - s) : level cap rate x s t = cap := by
  have hflow : d * rate ≤ (t - s) * rate := mul_le_mul_of_nonneg_right ht hrate
  have hfill : cap ≤ d * rate := by rwa [mul_comm] at hd
  exact min_eq_left (by linarith)

end Base
