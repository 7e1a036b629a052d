import ForgeQueue.Base.Job
import Mathlib.Logic.Relation

/-!
# Progress along an infinite run

An infinite run is a sequence of states. Two rules turn what one step does into what holds
later: what every step keeps stays (`keeps_from`), and a goal that is reached or approached
from everywhere is reached (`eventually_of_rank`).

The second half is the leased job of `Base.Job` as a transition system: `Job.Step` is one
move of its life, nothing moves a job that is over, and every move makes a job older
(`Job.age`), so that no life goes in circles.
-/

namespace Base

section Runs

variable {σ : Type*} {s : ℕ → σ}

/-- What is kept by every step from `n` on holds from `n` on. -/
theorem keeps_from {P : σ → Prop} {n : ℕ} (hn : P (s n))
    (hstep : ∀ k, n ≤ k → P (s k) → P (s (k + 1))) : ∀ m, n ≤ m → P (s m) := by
  intro m hm
  induction m, hm using Nat.le_induction with
  | base => exact hn
  | succ k hk ih => exact hstep k hk ih

/-- **Ranking rule.** A goal that every later state reaches or comes closer to is reached. -/
theorem eventually_of_rank (goal : σ → Prop) (rank : σ → ℕ) {n : ℕ}
    (hstep : ∀ k, n ≤ k → ¬ goal (s k) → ∃ m, k ≤ m ∧ (goal (s m) ∨ rank (s m) < rank (s k))) :
    ∃ m, n ≤ m ∧ goal (s m) := by
  suffices h : ∀ r k, n ≤ k → rank (s k) = r → ∃ m, n ≤ m ∧ goal (s m) from
    h _ n (Nat.le_refl n) rfl
  intro r
  induction r using Nat.strong_induction_on with
  | _ r ih =>
    intro k hk hr
    by_cases hg : goal (s k)
    · exact ⟨k, hk, hg⟩
    · obtain ⟨m, hm, hgoal | hlt⟩ := hstep k hk hg
      · exact ⟨m, by omega, hgoal⟩
      · exact ih _ (hr ▸ hlt) m (by omega) rfl

end Runs

/-! ## The moves of a leased job -/

variable {τ : Type*}

/-- One move of a job's life. A failed attempt buries the job exactly when it was the last
one its budget allows. -/
inductive Job.Step : Job τ → Job τ → Prop
  | create {j} (delayed : Bool) (budget : ℤ) : j.place = .absent →
      Job.Step j (.create delayed budget)
  | grant {j} (token : τ) : j.place = .ready → Job.Step j (j.grant token)
  | finish {j token} : j.place = .leased token → Job.Step j j.finish
  | fail {j token} : j.place = .leased token → Job.Step j (j.fail (decide j.lastAttempt))
  | promote {j} : j.place = .waiting → Job.Step j j.promote

/-- The jobs a life can come to, from one job on. -/
abbrev Job.Path : Job τ → Job τ → Prop := Relation.ReflTransGen Job.Step

/-- Every move keeps the counters right. -/
theorem Job.Step.ok {j j' : Job τ} (h : j.Step j') (hj : j.Ok) : j'.Ok := by
  cases h with
  | create delayed budget _ => exact .create delayed budget
  | grant token hp => exact hj.grant hp token
  | finish hp => exact hj.finish hp
  | fail hp => exact hj.fail hp
  | promote hp => exact hj.promote hp

/-- Nothing moves a job that is over. -/
theorem Job.Over.no_step {j j' : Job τ} (h : j.Over) : ¬ j.Step j' := by
  intro hs
  rcases h with hp | hp <;> cases hs <;> simp_all

/-- A job that is over stays what it is. -/
theorem Job.Over.path_eq {j j' : Job τ} (h : j.Over) (hp : j.Path j') : j' = j := by
  induction hp with
  | refl => rfl
  | tail _ hs ih =>
    subst ih
    exact absurd hs h.no_step

/-- No move leads back before the creation. -/
theorem Job.Step.born {j j' : Job τ} (h : j.Step j') : j'.place ≠ .absent := by
  cases h with
  | create delayed _ _ => cases delayed <;> simp [Job.create]
  | grant _ _ => simp [Job.grant]
  | finish _ => simp [Job.finish]
  | fail _ => unfold Job.fail; split <;> simp
  | promote _ => simp [Job.promote]

/-- A path that ends before the creation has no moves. -/
theorem Job.Path.eq_of_absent {j j' : Job τ} (h : j.Path j') (hp : j'.place = .absent) :
    j' = j := by
  cases h with
  | refl => rfl
  | tail _ hs => exact absurd hp hs.born

/-- The budget is the one of the creation. -/
theorem Job.Step.budget {j j' : Job τ} (h : j.Step j') (hp : j.place ≠ .absent) :
    j'.budget = j.budget := by
  cases h with
  | create _ _ ha => exact absurd ha hp
  | _ => rfl

theorem Job.Path.budget {j j' : Job τ} (h : j.Path j') (hp : j.place ≠ .absent) :
    j'.budget = j.budget := by
  induction h with
  | refl => rfl
  | tail hpath hs ih =>
    refine (hs.budget ?_).trans ih
    intro hk
    rw [Job.Path.eq_of_absent hpath hk] at hk
    exact hp hk

/-- The moves a job has behind it, as its counter and its place tell: three for each failed
attempt and those of the attempt it is in. -/
def Job.age (j : Job τ) : ℕ :=
  3 * j.failures + match j.place with
    | .absent | .waiting | .buried => 0
    | .ready => 1
    | .leased _ => 2
    | .finished => 3

/-- **Progress.** Every move of a job makes it older. -/
theorem Job.Step.age_lt {j j' : Job τ} (h : j.Step j') (hp : j.place ≠ .absent) :
    j.age < j'.age := by
  cases h with
  | create _ _ ha => exact absurd ha hp
  | grant token hr => simp [Job.age, Job.grant, hr]
  | finish hl => simp [Job.age, Job.finish, hl]
  | promote hw => simp [Job.age, Job.promote, hw]
  | fail hl =>
    by_cases hlast : j.lastAttempt <;> simp [Job.age, Job.fail, hl, hlast] <;> omega

/-- A path makes a job older, unless it has no moves. -/
theorem Job.Path.age_lt {j j' : Job τ} (h : j.Path j') (hp : j.place ≠ .absent) :
    j' = j ∨ j.age < j'.age := by
  induction h with
  | refl => exact .inl rfl
  | @tail k k' hpath hs ih =>
    right
    rcases ih with rfl | hlt
    · exact hs.age_lt hp
    · refine Nat.lt_trans hlt (hs.age_lt ?_)
      intro hk
      rw [Job.Path.eq_of_absent hpath hk] at hk
      exact hp hk

/-- A job that is old enough has failed often. -/
theorem Job.failures_of_age {j : Job τ} {n : ℕ} (h : 3 * n < j.age) : n ≤ j.failures := by
  unfold Job.age at h
  split at h <;> omega

end Base
