import Mathlib.Data.List.Basic

/-!
# The order of events in a history

A history is a list of events, oldest first. Statements about the order of events are
about the ways to split it; the rules below read such a split off the parts a history is
put together from.
-/

namespace Base

variable {ε : Type*}

/-- `e` only ever happens after `first`. -/
def OnlyAfter (h : List ε) (e first : ε) : Prop :=
  ∀ before after, h = before ++ e :: after → first ∈ before

/-- What does not happen before the first `first` only happens after it. -/
theorem OnlyAfter.of_split {early late : List ε} {e first : ε} (he : e ∉ early)
    (hne : e ≠ first) : OnlyAfter (early ++ first :: late) e first := by
  intro before after h
  rcases List.append_eq_append_iff.mp h with ⟨mid, rfl, hmid⟩ | ⟨mid, rfl, hmid⟩
  · cases mid with
    | nil => exact absurd (List.cons.inj hmid).1.symm hne
    | cons x mid =>
      rw [(List.cons.inj hmid).1]
      exact List.mem_append_right _ List.mem_cons_self
  · cases mid with
    | nil => exact absurd (List.cons.inj hmid).1 hne
    | cons x mid =>
      rw [(List.cons.inj hmid).1] at he
      exact absurd (List.mem_append_right _ List.mem_cons_self) he

/-- What happens in the last part comes after everything that does not. -/
theorem mem_after_of_split {early late before after : List ε} {e x : ε}
    (h : early ++ late = before ++ e :: after) (he : e ∉ late) (hx : x ∈ late) : x ∈ after := by
  rcases List.append_eq_append_iff.mp h with ⟨mid, rfl, rfl⟩ | ⟨mid, rfl, hmid⟩
  · exact absurd (List.mem_append_right _ List.mem_cons_self) he
  · cases mid with
    | nil =>
      rw [List.nil_append] at hmid
      rw [← hmid] at he
      exact absurd List.mem_cons_self he
    | cons y mid =>
      rw [List.cons_append, List.cons.injEq] at hmid
      rw [hmid.2]
      exact List.mem_append_right _ hx

/-- Before its last occurrence come all the others. -/
theorem prefix_of_last {q p before after : List ε} {x : ε} (hlast : x ∉ p)
    (h : q ++ x :: p = before ++ x :: after) : before <+: q := by
  rcases List.append_eq_append_iff.mp h with ⟨mid, rfl, hmid⟩ | ⟨mid, rfl, -⟩
  · cases mid with
    | nil => exact ⟨[], by simp⟩
    | cons y mid =>
      rw [List.cons_append, List.cons.injEq] at hmid
      rw [hmid.2] at hlast
      exact absurd (List.mem_append_right _ List.mem_cons_self) hlast
  · exact List.prefix_append before mid

end Base
