import ForgeQueue.Base.Keyed
import Mathlib.Algebra.Order.Ring.Int

/-!
# Entries that expire

A map whose entries may have a deadline. A reader sees the entries that are not past it.
When an implementation drops the others is its own affair: removing them does not change
what is seen, now or later.
-/

namespace Base

variable {κ ν : Type*}

/-- A value and the last instant it can be read at; `none` is no limit. -/
structure Lasting (ν : Type*) where
  value : ν
  deadline : Option ℤ

/-- The entry is not past its deadline. -/
def Lasting.alive (now : ℤ) (e : Lasting ν) : Bool := e.deadline.all (now ≤ ·)

theorem Lasting.alive_of_le {now now' : ℤ} {e : Lasting ν} (h : now ≤ now')
    (he : e.alive now' = true) : e.alive now = true := by
  cases hd : e.deadline with
  | none => simp [Lasting.alive, hd]
  | some t =>
    simp only [Lasting.alive, hd, Option.all_some, decide_eq_true_eq] at he ⊢
    exact h.trans he

/-- What can be seen of a map. -/
def visible (now : ℤ) (m : κ → Option (Lasting ν)) : κ → Option (Lasting ν) :=
  fun k => (m k).filter (·.alive now)

theorem visible_eq_some {now : ℤ} {m : κ → Option (Lasting ν)} {k : κ} {e : Lasting ν} :
    visible now m k = some e ↔ m k = some e ∧ e.alive now = true :=
  Option.filter_eq_some_iff

/-- What is seen later is what is seen later of what is seen now. -/
theorem visible_visible {now now' : ℤ} (h : now ≤ now') (m : κ → Option (Lasting ν)) :
    visible now' (visible now m) = visible now' m := by
  funext k
  refine Option.ext fun e => ?_
  rw [visible_eq_some, visible_eq_some, visible_eq_some]
  constructor
  · rintro ⟨⟨hm, -⟩, he⟩
    exact ⟨hm, he⟩
  · rintro ⟨hm, he⟩
    exact ⟨⟨hm, Lasting.alive_of_le h he⟩, he⟩

/-- Maps that look alike now look alike later. -/
theorem visible_congr_of_le {now now' : ℤ} (h : now ≤ now') {m m' : κ → Option (Lasting ν)}
    (hm : visible now m = visible now m') : visible now' m = visible now' m' := by
  rw [← visible_visible h m, hm, visible_visible h m']

variable [DecidableEq κ]

theorem visible_put {now : ℤ} (m : κ → Option (Lasting ν)) (k : κ) {e : Lasting ν}
    (he : e.alive now = true) : visible now (put m k e) = put (visible now m) k e := by
  funext x
  by_cases hx : x = k
  · rw [hx, put_self, visible_eq_some]
    exact ⟨put_self m k e, he⟩
  · rw [put_of_ne _ _ hx]
    unfold visible
    rw [put_of_ne _ _ hx]

theorem visible_del (now : ℤ) (m : κ → Option (Lasting ν)) (k : κ) :
    visible now (del m k) = del (visible now m) k := by
  funext x
  by_cases hx : x = k
  · unfold visible
    rw [hx, del_self, del_self]
    rfl
  · rw [del_of_ne _ hx]
    unfold visible
    rw [del_of_ne _ hx]

/-- Dropping an entry past its deadline is not seen. -/
theorem visible_del_expired {now : ℤ} {m : κ → Option (Lasting ν)} {k : κ} {e : Lasting ν}
    (hk : m k = some e) (he : e.alive now = false) : visible now (del m k) = visible now m := by
  rw [visible_del]
  funext x
  by_cases hx : x = k
  · unfold visible
    rw [hx, del_self, hk, Option.filter_some, he]
    rfl
  · rw [del_of_ne _ hx]

end Base
