import Mathlib.Algebra.GroupWithZero.Nat
import Mathlib.Data.Finset.Card
import Mathlib.Data.List.Range
import Mathlib.Order.Monotone.Basic
import Mathlib.Tactic.Common

/-!
# Bins that include both ends

A window is cut at the points `b 0 < b 1 < … < b n` into `n` bins, and bin `i` takes what lies
between `b i` and `b (i + 1)`, both included. Then a value in the window is in one bin, or in
two if it is one of the points inside the window (`hits_eq`). So the bins add up to the
window and what lies on its inner points (`sum_bins`).
-/

namespace Base

variable {α : Type*} [LinearOrder α] {b : ℕ → α} {n : ℕ} {x : α}

/-- Bin `i`. -/
def InBin (b : ℕ → α) (i : ℕ) (x : α) : Prop := b i ≤ x ∧ x ≤ b (i + 1)

instance (b : ℕ → α) (i : ℕ) (x : α) : Decidable (InBin b i x) :=
  inferInstanceAs (Decidable (_ ∧ _))

/-- The window. -/
def InWindow (b : ℕ → α) (n : ℕ) (x : α) : Prop := b 0 ≤ x ∧ x ≤ b n

instance (b : ℕ → α) (n : ℕ) (x : α) : Decidable (InWindow b n x) :=
  inferInstanceAs (Decidable (_ ∧ _))

/-- A point where one bin ends and the next begins. -/
def OnInnerPoint (b : ℕ → α) (n : ℕ) (x : α) : Prop := ∃ k < n, 0 < k ∧ b k = x

instance (b : ℕ → α) (n : ℕ) (x : α) : Decidable (OnInnerPoint b n x) :=
  inferInstanceAs (Decidable (∃ k < n, 0 < k ∧ b k = x))

/-- In how many bins a value is. -/
def hits (b : ℕ → α) (n : ℕ) (x : α) : ℕ := (List.range n).countP fun i => InBin b i x

theorem hits_succ (b : ℕ → α) (n : ℕ) (x : α) :
    hits b (n + 1) x = hits b n x + if InBin b n x then 1 else 0 := by
  unfold hits
  rw [List.range_succ, List.countP_append, List.countP_singleton]
  simp

omit [LinearOrder α] in
theorem onInnerPoint_succ (hn : 0 < n) :
    OnInnerPoint b (n + 1) x ↔ OnInnerPoint b n x ∨ b n = x := by
  constructor
  · rintro ⟨k, hk, hpos, heq⟩
    rcases Nat.lt_succ_iff_lt_or_eq.mp hk with hk | rfl
    · exact .inl ⟨k, hk, hpos, heq⟩
    · exact .inr heq
  · rintro (⟨k, hk, hpos, heq⟩ | heq)
    · exact ⟨k, hk.trans n.lt_succ_self, hpos, heq⟩
    · exact ⟨n, n.lt_succ_self, hn, heq⟩

theorem OnInnerPoint.lt (hb : StrictMono b) (h : OnInnerPoint b n x) : x < b n := by
  obtain ⟨k, hk, -, rfl⟩ := h
  exact hb hk

theorem OnInnerPoint.inWindow (hb : StrictMono b) (h : OnInnerPoint b n x) : InWindow b n x := by
  obtain ⟨k, hk, hpos, rfl⟩ := h
  exact ⟨(hb hpos).le, (hb hk).le⟩

/-- A value in the window is in one bin, on an inner point in two. -/
theorem hits_eq (hb : StrictMono b) (hn : 0 < n) (x : α) :
    hits b n x = (if InWindow b n x then 1 else 0) + if OnInnerPoint b n x then 1 else 0 := by
  induction n with
  | zero => exact absurd hn (lt_irrefl 0)
  | succ n ih =>
    rcases Nat.eq_zero_or_pos n with rfl | hpos
    · -- a single bin is the window, and there is no point inside
      have hnone : ¬ OnInnerPoint b 1 x := by
        rintro ⟨k, hk, hkpos, -⟩
        omega
      rw [hits_succ, if_neg hnone]
      simp [hits, InBin, InWindow]
    · have hfirst : b 0 ≤ b n := hb.monotone n.zero_le
      have hlast : b n < b (n + 1) := hb n.lt_succ_self
      rw [hits_succ, ih hpos]
      simp only [onInnerPoint_succ hpos]
      rcases lt_trichotomy x (b n) with hlt | rfl | hgt
      · -- before the last bin
        have hbin : ¬ InBin b n x := fun h => absurd h.1 (not_le.mpr hlt)
        have hwin : InWindow b (n + 1) x ↔ InWindow b n x :=
          ⟨fun h => ⟨h.1, hlt.le⟩, fun h => ⟨h.1, h.2.trans hlast.le⟩⟩
        simp [hbin, hwin, hlt.ne']
      · -- on the point where the last bin begins
        have hbin : InBin b n (b n) := ⟨le_refl _, hlast.le⟩
        have hwin : InWindow b n (b n) := ⟨hfirst, le_refl _⟩
        have hwin' : InWindow b (n + 1) (b n) := ⟨hfirst, hlast.le⟩
        have hinner : ¬ OnInnerPoint b n (b n) := fun h => lt_irrefl _ (h.lt hb)
        simp [hbin, hwin, hwin', hinner]
      · -- inside the last bin, or behind it
        have hwin : ¬ InWindow b n x := fun h => absurd h.2 (not_le.mpr hgt)
        have hinner : ¬ OnInnerPoint b n x := fun h => lt_asymm hgt (h.lt hb)
        have hbin : InBin b n x ↔ InWindow b (n + 1) x :=
          ⟨fun h => ⟨hfirst.trans h.1, h.2⟩, fun h => ⟨hgt.le, h.2⟩⟩
        simp [hwin, hinner, hbin, hgt.ne]

omit [LinearOrder α] in
/-- A sum that grows by one where `p` holds. -/
theorem sum_map_add_ite {f g : α → ℕ} {p : α → Prop} [DecidablePred p]
    (h : ∀ x, f x = g x + if p x then 1 else 0) (xs : List α) :
    (xs.map f).sum = (xs.map g).sum + xs.countP fun x => p x := by
  induction xs with
  | nil => rfl
  | cons x xs ih =>
    simp only [List.map_cons, List.sum_cons, List.countP_cons, ih, h, decide_eq_true_eq]
    omega

/-- The bins add up to the hits. -/
theorem sum_countP (b : ℕ → α) (n : ℕ) (xs : List α) :
    ((List.range n).map fun i => xs.countP fun x => InBin b i x).sum =
      (xs.map (hits b n)).sum := by
  induction n with
  | zero =>
    have hzero : hits b 0 = fun _ => 0 := rfl
    simp [hzero]
  | succ n ih =>
    rw [List.range_succ, List.map_append, List.sum_append, ih,
      sum_map_add_ite (hits_succ b n) xs]
    simp

/-- The bins add up to the window and what lies on its inner points. -/
theorem sum_bins (hb : StrictMono b) (hn : 0 < n) (xs : List α) :
    ((List.range n).map fun i => xs.countP fun x => InBin b i x).sum =
      (xs.countP fun x => InWindow b n x) + xs.countP fun x => OnInnerPoint b n x := by
  have hzero : (xs.map fun _ => 0).sum = 0 := by simp
  have hwindow := sum_map_add_ite (p := InWindow b n) (fun x => (Nat.zero_add _).symm) xs
  rw [hzero, Nat.zero_add] at hwindow
  rw [sum_countP, sum_map_add_ite (hits_eq hb hn) xs, hwindow]

/-- In one bin and no other. -/
theorem existsUnique_iff_hits (b : ℕ → α) (n : ℕ) (x : α) :
    (∃! i, i < n ∧ InBin b i x) ↔ hits b n x = 1 := by
  have hcard : hits b n x = ((Finset.range n).filter fun i => InBin b i x).card := by
    rw [hits, List.countP_eq_length_filter]
    rfl
  rw [hcard, Finset.card_eq_one, Finset.singleton_iff_unique_mem]
  simp only [Finset.mem_filter, Finset.mem_range]

end Base
