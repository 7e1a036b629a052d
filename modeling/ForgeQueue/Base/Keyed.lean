import Mathlib.Data.List.Count
import Mathlib.Data.Finset.Basic

/-!
# Keyed partial maps

A hash or a sorted set of a key-value server is a partial map `κ → Option ν`:
`put` is `HSET`/`ZADD` of one member, `del` is `HDEL`/`ZREM`. The lemmas are the
read-over-write equations, in the form `simp` uses them.
-/

namespace Base

variable {κ ν : Type*}

/-- The map with no binding. -/
def nothing : κ → Option ν := fun _ => none

@[simp] theorem nothing_apply (x : κ) : (nothing : κ → Option ν) x = none := rfl

variable [DecidableEq κ]

/-- Bind `k` to `v`, overwriting an earlier binding. -/
def put (m : κ → Option ν) (k : κ) (v : ν) : κ → Option ν :=
  fun x => if x = k then some v else m x

/-- Remove the binding of `k`, if there is one. -/
def del (m : κ → Option ν) (k : κ) : κ → Option ν :=
  fun x => if x = k then none else m x

@[simp] theorem put_self (m : κ → Option ν) (k : κ) (v : ν) : put m k v k = some v := by
  simp [put]

@[simp] theorem put_of_ne (m : κ → Option ν) {k x : κ} (v : ν) (h : x ≠ k) :
    put m k v x = m x := by
  simp [put, h]

@[simp] theorem del_self (m : κ → Option ν) (k : κ) : del m k k = none := by
  simp [del]

@[simp] theorem del_of_ne (m : κ → Option ν) {k x : κ} (h : x ≠ k) : del m k x = m x := by
  simp [del, h]

theorem put_put (m : κ → Option ν) (k : κ) (v w : ν) : put (put m k v) k w = put m k w := by
  funext x
  by_cases hx : x = k <;> simp [put, hx]

/-- Writing what is there already. -/
theorem put_eq_self {m : κ → Option ν} {k : κ} {v : ν} (h : m k = some v) : put m k v = m := by
  funext x
  by_cases hx : x = k
  · rw [hx, put_self, h]
  · rw [put_of_ne m v hx]

theorem put_eq_some {m : κ → Option ν} {k x : κ} {v w : ν} :
    put m k v x = some w ↔ x = k ∧ v = w ∨ x ≠ k ∧ m x = some w := by
  by_cases h : x = k <;> simp [put, h]

theorem del_eq_some {m : κ → Option ν} {k x : κ} {w : ν} :
    del m k x = some w ↔ x ≠ k ∧ m x = some w := by
  by_cases h : x = k <;> simp [del, h]

/-- Two maps with the same domain keep the same domain when both lose a key. -/
theorem del_isSome_congr {ν' : Type*} {m : κ → Option ν} {m' : κ → Option ν'}
    (h : ∀ x, (m x).isSome = (m' x).isSome) (k x : κ) :
    (del m k x).isSome = (del m' k x).isSome := by
  by_cases hx : x = k
  · rw [hx, del_self, del_self]; rfl
  · rw [del_of_ne _ hx, del_of_ne _ hx]; exact h x

end Base
