import Mathlib.Data.List.Nodup
import Mathlib.Data.List.Sublists

/-!
# Arrival order and service order

`Arrivals` is what an observer sees of a container: what was put into it and what was
taken out of it, both oldest first, and what waits in it, next to be taken first. `push`
and `pop` work at the same end. `InOrder` says that nothing was served before something
that had arrived earlier. A pop breaks it as soon as two elements wait
(`Waits.pop_overtakes`), and keeps it as long as no more than one does (`Caught.pop`).
-/

namespace Base

variable {α : Type*}

/-- What arrived, what was served and what waits. -/
structure Arrivals (α : Type*) where
  arrived : List α
  served : List α
  waiting : List α

/-- A new element waits in front of the others. -/
def Arrivals.push (s : Arrivals α) (x : α) : Arrivals α where
  arrived := s.arrived ++ [x]
  served := s.served
  waiting := x :: s.waiting

/-- Up to `n` elements are served, from the front. -/
def Arrivals.pop (s : Arrivals α) (n : ℕ) : Arrivals α where
  arrived := s.arrived
  served := s.served ++ s.waiting.take n
  waiting := s.waiting.drop n

/-- Whatever was served had everything served before it that arrived before it. -/
def Arrivals.InOrder (s : Arrivals α) : Prop :=
  ∀ a b, [a, b].Sublist s.arrived → b ∈ s.served → [a, b].Sublist s.served

/-- Of a pair in a row of two lists, the part whose second element is not in the second
list is in the first one. -/
theorem pair_sublist_left {a b : α} {l l' : List α} (h : [a, b].Sublist (l ++ l'))
    (hb : b ∉ l') : [a, b].Sublist l := by
  obtain ⟨l₁, l₂, heq, h₁, h₂⟩ := List.sublist_append_iff.mp h
  cases l₂ using List.reverseRecOn with
  | nil =>
    rw [List.append_nil] at heq
    exact heq ▸ h₁
  | append_singleton l₂ c =>
    rw [← List.append_assoc, ← List.singleton_append, ← List.concat_eq_append,
      ← List.concat_eq_append] at heq
    have hbc : b = c := by simpa using congrArg List.getLast? heq
    exact absurd (h₂.subset (hbc ▸ List.mem_append_right _ List.mem_cons_self)) hb

/-! ## The invariant -/

/-- Every element arrives once and is in one place, and those that wait do so newest
first. -/
structure Arrivals.Waits (s : Arrivals α) : Prop where
  nodup : (s.served ++ s.waiting).Nodup
  arrived : ∀ x ∈ s.served ++ s.waiting, x ∈ s.arrived
  newest : s.waiting.reverse.Sublist s.arrived

/-- A fresh element may be pushed. -/
theorem Arrivals.Waits.push {s : Arrivals α} (h : s.Waits) {x : α} (hx : x ∉ s.arrived) :
    (s.push x).Waits where
  nodup := by
    have hno : x ∉ s.served ++ s.waiting := fun hmem => hx (h.arrived x hmem)
    exact List.nodup_middle.mpr (List.nodup_cons.mpr ⟨hno, h.nodup⟩)
  arrived := by
    intro y hy
    rcases List.mem_cons.mp (List.perm_middle.mem_iff.mp hy) with rfl | hy
    · exact List.mem_append_right _ List.mem_cons_self
    · exact List.mem_append_left _ (h.arrived y hy)
  newest := by
    show (x :: s.waiting).reverse.Sublist (s.arrived ++ [x])
    rw [List.reverse_cons]
    exact h.newest.append (List.Sublist.refl [x])

/-- Serving moves elements, in their order. -/
theorem Arrivals.pop_all (s : Arrivals α) (n : ℕ) :
    (s.pop n).served ++ (s.pop n).waiting = s.served ++ s.waiting := by
  show s.served ++ s.waiting.take n ++ s.waiting.drop n = _
  rw [List.append_assoc, List.take_append_drop]

theorem Arrivals.Waits.pop {s : Arrivals α} (h : s.Waits) (n : ℕ) : (s.pop n).Waits where
  nodup := by
    rw [s.pop_all]
    exact h.nodup
  arrived := by
    rw [s.pop_all]
    exact h.arrived
  newest := (List.drop_sublist n s.waiting).reverse.trans h.newest

/-- **Overtaking.** If two wait, the next one served came after the one behind it. -/
theorem Arrivals.Waits.pop_overtakes {s : Arrivals α} (h : s.Waits) {n : ℕ} (hn : 0 < n)
    (hwait : 2 ≤ s.waiting.length) : ¬ (s.pop n).InOrder := by
  obtain ⟨y, x, rest, hw⟩ : ∃ y x rest, s.waiting = y :: x :: rest := by
    match hw : s.waiting, hwait with
    | y :: x :: rest, _ => exact ⟨y, x, rest, rfl⟩
  obtain ⟨m, rfl⟩ : ∃ m, n = m + 1 := ⟨n - 1, by omega⟩
  intro hin
  have hxy : [x, y].Sublist s.arrived := by
    refine List.Sublist.trans ?_ h.newest
    rw [hw, List.reverse_cons, List.reverse_cons, List.append_assoc]
    exact List.sublist_append_right _ _
  have hserved : (s.pop (m + 1)).served = s.served ++ y :: (x :: rest).take m := by
    show s.served ++ s.waiting.take (m + 1) = _
    rw [hw, List.take_succ_cons]
  have hsub := hin x y hxy (by rw [hserved]; exact List.mem_append_right _ List.mem_cons_self)
  have hnodup := h.nodup
  rw [hw] at hnodup
  rw [hserved, List.append_cons] at hsub
  -- `y` is served once, so `x` would have to be served before it, but it still waits
  have hy : y ∉ (x :: rest).take m := by
    intro hmem
    have hcons := (List.nodup_append.mp hnodup).2.1
    exact (List.nodup_cons.mp hcons).1 (List.mem_of_mem_take hmem)
  have hleft := pair_sublist_left hsub hy
  have hx : x ∈ s.served := by
    have := hleft.subset (List.mem_cons_self)
    rcases List.mem_append.mp this with hx | hx
    · exact hx
    · have hne := (List.nodup_cons.mp (List.nodup_append.mp hnodup).2.1).1
      rw [List.mem_singleton.mp hx] at hne
      exact absurd List.mem_cons_self hne
  exact List.disjoint_of_nodup_append hnodup hx (List.mem_cons_of_mem _ List.mem_cons_self)

/-! ## Where the order holds -/

/-- Service has followed the arrivals so far. -/
def Arrivals.Caught (s : Arrivals α) : Prop :=
  s.arrived = s.served ++ s.waiting.reverse

theorem Arrivals.Caught.push {s : Arrivals α} (h : s.Caught) (x : α) : (s.push x).Caught := by
  show s.arrived ++ [x] = s.served ++ (x :: s.waiting).reverse
  rw [h, List.reverse_cons, List.append_assoc]

/-- With at most one element there is no order to break. -/
theorem Arrivals.Caught.pop {s : Arrivals α} (h : s.Caught) (hone : s.waiting.length ≤ 1)
    (n : ℕ) : (s.pop n).Caught := by
  show s.arrived = s.served ++ s.waiting.take n ++ (s.waiting.drop n).reverse
  have hrev : ∀ l : List α, l.length ≤ 1 → l.reverse = l := by
    intro l hl
    match l, hl with
    | [], _ => rfl
    | [x], _ => rfl
  rw [hrev (s.waiting.drop n) (by rw [List.length_drop]; omega), List.append_assoc,
    List.take_append_drop, h, hrev s.waiting hone]

theorem Arrivals.Caught.inOrder {s : Arrivals α} (h : s.Caught) (hw : s.Waits) :
    s.InOrder := by
  intro a b hab hb
  rw [h] at hab
  refine pair_sublist_left hab ?_
  rw [List.mem_reverse]
  exact fun hwait => List.disjoint_of_nodup_append hw.nodup hb hwait

end Base
