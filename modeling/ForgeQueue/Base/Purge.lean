import Mathlib.Data.List.Induction
import Mathlib.Tactic.Common

/-!
# Runs with some of the inputs removed

A machine reads inputs one by one and answers each. Its inputs are removed by what it
answered to them (`kept`), and it is run again on what is left. `purge_run` is the rule for
showing that what is left is answered as before: a relation between the two runs that a
removed input keeps in the first of them alone, and any other input in both, with answers
that look the same.
-/

namespace Base

variable {σ ι ο β : Type*}

/-- The state after a list of inputs, and the answers. -/
def runAll (step : σ → ι → σ × ο) : σ → List ι → σ × List ο
  | s, [] => (s, [])
  | s, x :: xs =>
    let one := step s x
    let next := runAll step one.1 xs
    (next.1, one.2 :: next.2)

/-- The inputs that are not removed, with their answers. -/
def kept (step : σ → ι → σ × ο) (removed : ο → Bool) (s : σ) (xs : List ι) : List (ι × ο) :=
  (xs.zip (runAll step s xs).2).filter fun e => !removed e.2

variable {step : σ → ι → σ × ο} {removed : ο → Bool}

theorem runAll_append (step : σ → ι → σ × ο) (s : σ) (xs ys : List ι) :
    runAll step s (xs ++ ys) = ((runAll step (runAll step s xs).1 ys).1,
      (runAll step s xs).2 ++ (runAll step (runAll step s xs).1 ys).2) := by
  induction xs generalizing s with
  | nil => rfl
  | cons x xs ih => simp [runAll, ih]

theorem runAll_length (step : σ → ι → σ × ο) (s : σ) (xs : List ι) :
    (runAll step s xs).2.length = xs.length := by
  induction xs generalizing s with
  | nil => rfl
  | cons x xs ih => simp [runAll, ih]

theorem runAll_singleton (step : σ → ι → σ × ο) (s : σ) (x : ι) :
    runAll step s [x] = ((step s x).1, [(step s x).2]) := rfl

theorem kept_append (step : σ → ι → σ × ο) (removed : ο → Bool) (s : σ) (xs ys : List ι) :
    kept step removed s (xs ++ ys) =
      kept step removed s xs ++ kept step removed (runAll step s xs).1 ys := by
  unfold kept
  rw [runAll_append, List.zip_append (runAll_length step s xs).symm, List.filter_append]

theorem kept_singleton (s : σ) (x : ι) : kept step removed s [x] =
    if removed (step s x).2 then [] else [(x, (step s x).2)] := by
  unfold kept
  rw [runAll_singleton]
  cases h : removed (step s x).2 <;> simp [h]

/-- Where nothing is removed. -/
theorem kept_of_none {s : σ} {xs : List ι} (h : ∀ o ∈ (runAll step s xs).2, removed o = false) :
    kept step removed s xs = xs.zip (runAll step s xs).2 := by
  refine List.filter_eq_self.mpr fun e he => ?_
  rw [h e.2 (List.of_mem_zip he).2]
  rfl

/-- **The rule.** `R before s s'` relates the run on `before` to the run on what is kept of
it. -/
theorem purge_run (step : σ → ι → σ × ο) (removed : ο → Bool) (look : ο → β)
    (R : List ι → σ → σ → Prop) (s₀ : σ) (xs : List ι)
    (hinit : R [] s₀ s₀)
    (hremoved : ∀ before x s s', before ++ [x] <+: xs → R before s s' →
      removed (step s x).2 = true → R (before ++ [x]) (step s x).1 s')
    (hkept : ∀ before x s s', before ++ [x] <+: xs → R before s s' →
      removed (step s x).2 = false →
        look (step s' x).2 = look (step s x).2 ∧
          R (before ++ [x]) (step s x).1 (step s' x).1) :
    (runAll step s₀ ((kept step removed s₀ xs).map Prod.fst)).2.map look =
        (kept step removed s₀ xs).map (fun e => look e.2) ∧
      R xs (runAll step s₀ xs).1
        (runAll step s₀ ((kept step removed s₀ xs).map Prod.fst)).1 := by
  -- the prefixes of `xs`, from the shortest
  suffices hall : ∀ ys, ys <+: xs →
      (runAll step s₀ ((kept step removed s₀ ys).map Prod.fst)).2.map look =
          (kept step removed s₀ ys).map (fun e => look e.2) ∧
        R ys (runAll step s₀ ys).1
          (runAll step s₀ ((kept step removed s₀ ys).map Prod.fst)).1 from
    hall xs (List.prefix_refl xs)
  intro ys
  induction ys using List.reverseRecOn with
  | nil => exact fun _ => ⟨rfl, hinit⟩
  | append_singleton ys x ih =>
    intro hpre
    obtain ⟨hlook, hR⟩ := ih ((List.prefix_append ys [x]).trans hpre)
    rw [kept_append, kept_singleton, runAll_append, runAll_singleton]
    cases hx : removed (step (runAll step s₀ ys).1 x).2 with
    | true =>
      rw [if_pos rfl, List.append_nil]
      exact ⟨hlook, hremoved ys x _ _ hpre hR hx⟩
    | false =>
      obtain ⟨hsame, hR'⟩ := hkept ys x _ _ hpre hR hx
      rw [if_neg (by simp), List.map_append, runAll_append, List.map_singleton,
        runAll_singleton, List.map_append, List.map_append, hlook]
      refine ⟨?_, hR'⟩
      rw [List.map_singleton, List.map_singleton, hsame]

end Base
