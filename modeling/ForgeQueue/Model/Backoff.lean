import ForgeQueue.Model.Redis
import Mathlib.Tactic.Ring

/-!
# The backoff, twice

The delay before a retry is computed in the `requeueOrDead` script, which schedules the
task, and once more by `backoffDelay` in Go, from which `reportRetry` takes the due time
for the journal. The script counts in Lua numbers, Go in nanoseconds of 64 bits with a
loop counter of 32 bits; both wrap around.
-/

namespace ForgeQueue

/-! ## In the script -/

theorem doubling_eq (n : ℕ) (delay : ℚ) : doubling n delay = delay * 2 ^ n := by
  induction n generalizing delay with
  | zero => simp [doubling]
  | succ n ih =>
    rw [doubling, ih, pow_succ]
    ring

/-- The loop doubles the base once for each attempt after the first one. -/
theorem scriptBackoff_eq {a : ℕ} (ha : 1 ≤ a) (base cap : ℚ) :
    scriptBackoff (a : ℚ) base cap = min cap (base * 2 ^ (a - 1)) := by
  have hturns : ((a : ℚ).floor - 1).toNat = a - 1 := by
    have hfloor : (a : ℚ).floor = a := Rat.floor_intCast a
    rw [hfloor]
    omega
  simp only [scriptBackoff, hturns, doubling_eq]
  split
  · rename_i hgt
    exact (min_eq_left hgt.le).symm
  · rename_i hle
    exact (min_eq_right (not_lt.mp hle)).symm

/-! ## In Go -/

/-- `Duration.Seconds`, exact: the arguments of the script. -/
def seconds (nanoseconds : ℤ) : ℚ := nanoseconds / 1000000000

/-- The loop `for i := int32(2); i <= attempts; i++ { delay *= 2 }` from some turn on;
`none` when it is not done after `fuel` tests of its condition. -/
def backoffLoop (attempts : Int32) : ℕ → Int32 → Int64 → Option Int64
  | 0, _, _ => none
  | fuel + 1, i, delay =>
    if i ≤ attempts then backoffLoop attempts fuel (i + 1) (delay * 2) else some delay

/-- `backoffDelay`, given time for `fuel` tests. -/
def backoffDelay (fuel : ℕ) (attempts : Int32) (base cap : Int64) : Option Int64 :=
  (backoffLoop attempts fuel 2 base).map fun delay => if cap < delay then cap else delay

/-- `backoffDelay` returns, and this is what it returns. -/
def BackoffReturns (attempts : Int32) (base cap delay : Int64) : Prop :=
  ∃ fuel, backoffDelay fuel attempts base cap = some delay

/-- More time does not change the result. -/
theorem backoffLoop_mono {attempts : Int32} {fuel : ℕ} :
    ∀ {i : Int32} {delay result : Int64}, backoffLoop attempts fuel i delay = some result →
      ∀ more, backoffLoop attempts (fuel + more) i delay = some result := by
  induction fuel with
  | zero =>
    intro i delay result h
    cases h
  | succ fuel ih =>
    intro i delay result h more
    rw [Nat.add_right_comm]
    unfold backoffLoop at h ⊢
    split at h
    · next hi =>
      rw [if_pos hi]
      exact ih h more
    · next hi =>
      rw [if_neg hi]
      exact h

/-- There is one result at most. -/
theorem BackoffReturns.unique {attempts : Int32} {base cap d d' : Int64}
    (h : BackoffReturns attempts base cap d) (h' : BackoffReturns attempts base cap d') :
    d = d' := by
  obtain ⟨fuel, h⟩ := h
  obtain ⟨fuel', h'⟩ := h'
  obtain ⟨e, he, rfl⟩ := Option.map_eq_some_iff.mp h
  obtain ⟨e', he', rfl⟩ := Option.map_eq_some_iff.mp h'
  have heq := (backoffLoop_mono he fuel').symm.trans
    (Nat.add_comm fuel' fuel ▸ backoffLoop_mono he' fuel)
  rw [Option.some.inj heq]

/-- The loop counter cannot pass the largest counter there is. -/
theorem backoffLoop_max {attempts : Int32} (h : attempts.toInt = 2 ^ 31 - 1) (fuel : ℕ) :
    ∀ (i : Int32) (delay : Int64), backoffLoop attempts fuel i delay = none := by
  induction fuel with
  | zero => exact fun _ _ => rfl
  | succ fuel ih =>
    intro i delay
    have hi : i ≤ attempts := by
      have := i.toInt_lt
      rw [Int32.le_iff_toInt_le]
      omega
    rw [backoffLoop, if_pos hi]
    exact ih _ _

/-- Below it the loop ends, and has doubled modulo `2 ^ 64`. -/
theorem backoffLoop_eq {attempts : Int32} (hmax : attempts.toInt < 2 ^ 31 - 1) (n : ℕ) :
    ∀ (i : Int32) (delay : Int64), (attempts.toInt + 1 - i.toInt) = n →
      ∃ result, backoffLoop attempts (n + 1) i delay = some result ∧
        result.toInt = (delay.toInt * 2 ^ n).bmod (2 ^ 64) := by
  induction n with
  | zero =>
    intro i delay hn
    refine ⟨delay, ?_, ?_⟩
    · rw [backoffLoop, if_neg]
      rw [Int32.le_iff_toInt_le]
      omega
    · rw [pow_zero, mul_one]
      exact (Int64.toInt_bmod delay).symm
  | succ n ih =>
    intro i delay hn
    have hi : i ≤ attempts := by
      rw [Int32.le_iff_toInt_le]
      omega
    have hnext : (i + 1).toInt = i.toInt + 1 := by
      have hlow := i.le_toInt
      rw [Int32.toInt_add, Int32.toInt_one]
      exact Int.bmod_eq_of_le (by omega) (by omega)
    obtain ⟨result, hres, hval⟩ := ih (i + 1) (delay * 2) (by rw [hnext]; omega)
    refine ⟨result, ?_, ?_⟩
    · rw [backoffLoop, if_pos hi]
      exact hres
    · have htwo : (2 : Int64).toInt = 2 := rfl
      rw [hval, Int64.toInt_mul, htwo, Int.bmod_mul_bmod, mul_assoc, pow_succ' (2 : ℤ) n]

end ForgeQueue
