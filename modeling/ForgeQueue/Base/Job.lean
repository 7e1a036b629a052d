import Mathlib.Data.Int.Cast.Basic
import Mathlib.Tactic.Common

/-!
# A leased job with a retry budget

The abstract life of one job, with nothing said about where it is stored. A job
is created, waits, is granted under a token, and each grant ends in exactly one
of three ways: the job is finished, or the attempt failed and the job waits again,
or the attempt failed and the budget is used up. A budget that is not positive is
no bound.

The counters are what the retry bounds are about: `Job.Ok` ties them to the place
the job is in, and every step keeps it.
-/

namespace Base

/-- Where a job is; a grant is held under a token. -/
inductive Place (τ : Type*) where
  | absent
  | ready
  | leased (token : τ)
  | waiting
  | buried
  | finished
  deriving DecidableEq

variable {τ : Type*}

/-- The grants whose end is still open or was a success. -/
def Place.spent : Place τ → ℕ
  | .leased _ | .finished => 1
  | _ => 0

/-- A job: its place, its failed attempts, its grants, its budget. -/
structure Job (τ : Type*) where
  place : Place τ
  failures : ℕ
  grants : ℕ
  budget : ℤ

/-- The job before it is created. -/
def Job.unborn : Job τ := ⟨.absent, 0, 0, 0⟩

/-- A newly created job, ready at once or after a delay. -/
def Job.create (delayed : Bool) (budget : ℤ) : Job τ :=
  ⟨if delayed then .waiting else .ready, 0, 0, budget⟩

/-- A grant under a token. -/
def Job.grant (j : Job τ) (token : τ) : Job τ :=
  { j with place := .leased token, grants := j.grants + 1 }

/-- The granted work succeeded. -/
def Job.finish (j : Job τ) : Job τ := { j with place := .finished }

/-- The granted work failed; `bury` says the budget is used up. -/
def Job.fail (j : Job τ) (bury : Bool) : Job τ :=
  { j with place := if bury then .buried else .waiting, failures := j.failures + 1 }

/-- A waiting job became due. -/
def Job.promote (j : Job τ) : Job τ := { j with place := .ready }

/-- The attempt after `failures` failures is the last one the budget allows. -/
def Job.lastAttempt (j : Job τ) : Prop :=
  0 < j.budget ∧ j.budget ≤ (j.failures : ℤ) + 1

instance (j : Job τ) : Decidable j.lastAttempt := inferInstanceAs (Decidable (_ ∧ _))

/-- Nothing happens to the job any more. -/
def Job.Over (j : Job τ) : Prop := j.place = .finished ∨ j.place = .buried

/-- The counters agree with the place. -/
structure Job.Ok (j : Job τ) : Prop where
  grants : j.grants = j.failures + j.place.spent
  within : j.place ≠ .buried → 0 < j.budget → (j.failures : ℤ) < j.budget
  buried : j.place = .buried → 0 < j.budget ∧ (j.failures : ℤ) = j.budget

theorem Job.Ok.unborn : (Job.unborn : Job τ).Ok where
  grants := rfl
  within _ h := h
  buried h := by cases h

theorem Job.Ok.create (delayed : Bool) (budget : ℤ) :
    (Job.create delayed budget : Job τ).Ok where
  grants := by cases delayed <;> rfl
  within _ h := h
  buried h := by cases delayed <;> cases h

theorem Job.Ok.grant {j : Job τ} (h : j.Ok) (hp : j.place = .ready) (token : τ) :
    (j.grant token).Ok where
  grants := by
    have := h.grants
    rw [hp] at this
    simp only [Job.grant, Place.spent] at this ⊢
    omega
  within _ hb := h.within (by rw [hp]; nofun) hb
  buried hb := by cases hb

theorem Job.Ok.finish {j : Job τ} (h : j.Ok) {token : τ} (hp : j.place = .leased token) :
    j.finish.Ok where
  grants := by
    have := h.grants
    rw [hp] at this
    exact this
  within _ hb := h.within (by rw [hp]; nofun) hb
  buried hb := by cases hb

/-- A failed attempt keeps the counters right when exactly the last attempt
buries the job. -/
theorem Job.Ok.fail {j : Job τ} (h : j.Ok) {token : τ} (hp : j.place = .leased token) :
    (j.fail (decide j.lastAttempt)).Ok where
  grants := by
    have := h.grants
    rw [hp] at this
    by_cases hl : j.lastAttempt <;> simp [Job.fail, hl, Place.spent] at this ⊢ <;> omega
  within hne hb := by
    by_cases hl : j.lastAttempt
    · simp [Job.fail, hl] at hne
    · simp only [Job.fail, Job.lastAttempt, not_and] at hl hb ⊢
      have := hl hb
      push_cast
      omega
  buried hb := by
    by_cases hl : j.lastAttempt
    · have hlt := h.within (by rw [hp]; nofun) hl.1
      obtain ⟨hpos, hle⟩ := hl
      refine ⟨hpos, ?_⟩
      simp only [Job.fail]
      push_cast
      omega
    · simp [Job.fail, hl] at hb

theorem Job.Ok.promote {j : Job τ} (h : j.Ok) (hp : j.place = .waiting) : j.promote.Ok where
  grants := by
    have := h.grants
    rw [hp] at this
    exact this
  within _ hb := h.within (by rw [hp]; nofun) hb
  buried hb := by cases hb

/-- **Budget.** A job with a positive budget is granted at most that often. -/
theorem Job.Ok.grants_le {j : Job τ} (h : j.Ok) (hb : 0 < j.budget) :
    (j.grants : ℤ) ≤ j.budget := by
  have hg := h.grants
  by_cases hp : j.place = .buried
  · have hspent : j.place.spent = 0 := by rw [hp]; rfl
    have := (h.buried hp).2
    omega
  · have hspent : j.place.spent ≤ 1 := by cases j.place <;> simp [Place.spent]
    have := h.within hp hb
    omega

end Base
