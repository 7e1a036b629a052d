import Mathlib.Data.List.Sort
import Mathlib.Order.Defs.LinearOrder

/-!
# Reading a table page by page

Keyset pagination over items with a key in a linear order: `after` are the items strictly
after a cursor in the order of their keys, a page is a front segment of them, and the next
cursor is the last key of the page. With distinct keys a page is strictly increasing
(`after_pairwise`), an item after the cursor is in the page or after its end
(`after_covers`), and the end of a full page has as many fewer items after it as the page
has (`length_after_last`).
-/

namespace Base

variable {α κ : Type*} [LinearOrder κ]

/-- The items after the cursor, in the order of their keys. -/
def after (key : α → κ) (cursor : κ) (l : List α) : List α :=
  (l.filter fun x => cursor < key x).insertionSort fun x y => key x ≤ key y

/-- `last` is the greatest key of the page. -/
structure IsLast (key : α → κ) (page : List α) (last : κ) : Prop where
  mem : ∃ x ∈ page, key x = last
  le : ∀ x ∈ page, key x ≤ last

variable {key : α → κ} {cursor last : κ} {l : List α}

theorem mem_after {x : α} : x ∈ after key cursor l ↔ x ∈ l ∧ cursor < key x := by
  rw [after, List.mem_insertionSort, List.mem_filter, decide_eq_true_iff]

/-- With distinct keys the order is strict. -/
theorem after_pairwise (h : (l.map key).Nodup) :
    (after key cursor l).Pairwise fun x y => key x < key y := by
  have hle : (after key cursor l).Pairwise fun x y => key x ≤ key y :=
    List.pairwise_insertionSort (fun x y : α => key x ≤ key y) _
  have hperm : (after key cursor l).Perm (l.filter fun x => cursor < key x) :=
    List.perm_insertionSort _ _
  have hne : (after key cursor l).Pairwise fun x y => key x ≠ key y := by
    have hsub := h.sublist ((List.filter_sublist (p := fun x => cursor < key x)).map key)
    exact List.pairwise_map.mp ((hperm.map key).nodup_iff.mpr hsub)
  exact (hle.and hne).imp fun hxy => lt_of_le_of_ne hxy.1 hxy.2

/-- How many items follow a cursor is a matter of the keys. -/
theorem length_after (key : α → κ) (cursor : κ) (l : List α) :
    (after key cursor l).length = ((l.map key).filter fun k => cursor < k).length := by
  rw [after, List.length_insertionSort, List.filter_map, List.length_map]
  rfl

/-- A front segment ends before everything behind it. -/
theorem last_lt_of_mem_drop (h : (l.map key).Nodup) {n : ℕ}
    (hlast : IsLast key ((after key cursor l).take n) last) {x : α}
    (hx : x ∈ (after key cursor l).drop n) : last < key x := by
  obtain ⟨y, hy, rfl⟩ := hlast.mem
  have hsorted : (after key cursor l).Pairwise fun x y => key x < key y := after_pairwise h
  rw [← List.take_append_drop n (after key cursor l)] at hsorted
  exact (List.pairwise_append.mp hsorted).2.2 y hy x hx

/-- **Coverage.** An item after the cursor is in the page, or the page is full and ends
before it. -/
theorem after_covers (h : (l.map key).Nodup) {n : ℕ} (hn : 0 < n)
    (hlast : (after key cursor l).take n ≠ [] → IsLast key ((after key cursor l).take n) last)
    {x : α} (hx : x ∈ l) (hkey : cursor < key x) :
    x ∈ (after key cursor l).take n ∨
      ((after key cursor l).take n).length = n ∧ last < key x := by
  have hmem := mem_after.mpr ⟨hx, hkey⟩
  rw [← List.take_append_drop n (after key cursor l), List.mem_append] at hmem
  refine hmem.imp_right fun hdrop => ?_
  have hfull : ((after key cursor l).take n).length = n := by
    have hlong := List.length_pos_of_mem hdrop
    rw [List.length_drop] at hlong
    rw [List.length_take]
    omega
  refine ⟨hfull, last_lt_of_mem_drop h (hlast ?_) hdrop⟩
  exact List.ne_nil_of_length_pos (by omega)

/-- **Progress.** The items after the end of a full page are those the page left. -/
theorem length_after_last (h : (l.map key).Nodup) {n : ℕ}
    (hlast : IsLast key ((after key cursor l).take n) last) :
    (after key last l).length = (after key cursor l).length - n := by
  have hcursor : cursor < last := by
    obtain ⟨y, hy, rfl⟩ := hlast.mem
    exact (mem_after.mp (List.mem_of_mem_take hy)).2
  have hcount : (after key last l).length =
      ((after key cursor l).filter fun x => last < key x).length := by
    have hperm : (after key cursor l).Perm (l.filter fun x => cursor < key x) :=
      List.perm_insertionSort _ _
    rw [(hperm.filter _).length_eq, after, List.length_insertionSort, List.filter_filter]
    congr 1
    refine List.filter_congr fun x _ => ?_
    by_cases hx : last < key x
    · simp [hx, hcursor.trans hx]
    · simp [hx]
  rw [hcount]
  have hsplit := List.take_append_drop n (after key cursor l)
  have htake : ((after key cursor l).take n).filter (fun x => last < key x) = [] := by
    rw [List.filter_eq_nil_iff]
    intro x hx
    simpa using hlast.le x hx
  have hdrop : ((after key cursor l).drop n).filter (fun x => last < key x) =
      (after key cursor l).drop n := by
    rw [List.filter_eq_self]
    intro x hx
    simpa using last_lt_of_mem_drop h hlast hx
  rw [← hsplit, List.filter_append, htake, hdrop, List.nil_append, hsplit, List.length_drop]

end Base
