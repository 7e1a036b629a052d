import ForgeQueue.Logic.Counts
import ForgeQueue.Model.JsonBody

/-!
# The retry budget

The abstract job counts failures and grants, the history records them as events,
and the body carries the counter the scripts read. Along every run of the core engine
the three agree, so the bounds of `Base.Job` become statements about the code: how
often a task is claimed, when it is dead-lettered and what the dead body says.
-/

namespace ForgeQueue

open Base

/-! ## The verdict of `requeueOrDead` -/

section

variable {Body : Type} [TaskCodec Body]

/-- The call answers `dead` exactly when the guard lets it through and the attempt it
ends is the last one of a positive budget. -/
theorem Refines.requeueOrDead_dead {r : Redis Body} {log : List Event} (h : Refines r log)
    (now base cap : ℚ) (id leaseID : String) :
    (requeueOrDead now base cap id leaseID r).2 = some .dead ↔
      requeueGuard now id leaseID r = none ∧ (jobOf log id).lastAttempt := by
  unfold requeueOrDead
  cases hg : requeueGuard now id leaseID r with
  | some status =>
    refine ⟨fun hd => ?_, fun hd => nomatch hd.1⟩
    exact absurd (Option.some.inj hd) (requeueGuard_rejects hg).1
  | none =>
    obtain ⟨l, hp⟩ := h.guard_leased hg
    obtain ⟨_, -, -, hlast, -, -⟩ := (h.holds id).retry hp now base cap
    exact ⟨fun hd => ⟨rfl, hlast.mp hd⟩, fun hd => hlast.mpr hd.2⟩

end

/-! ## The budget along whole runs -/

section Budget

variable {Body : Type} [TaskCodec Body]

/-- What the budget `max_retries` of an enqueued task means in a state. -/
structure BudgetKept (e : Engine Body) (id : String) (maxRetries : ℤ) : Prop where
  /-- The counter in the body is the number of failed or reclaimed leases. -/
  attempts : ∀ b, e.redis.task id = some b →
    ∃ t, IsDoc b t ∧ t.maxRetries = maxRetries ∧ t.attempts = e.failures id
  claims : 0 < maxRetries → e.claims id ≤ maxRetries
  live : 0 < maxRetries → e.redis.Live id → e.failures id < maxRetries
  /-- The task is in the dead list, once, exactly when the counter reached the budget. -/
  buried : 0 < maxRetries →
    e.redis.dead.countP (deadOf id) = if e.failures id = maxRetries then 1 else 0
  entry : ∀ b ∈ e.redis.dead, deadOf id b = true → ∃ t, IsDoc b t ∧ t.attempts = maxRetries
  /-- The next failure dead-letters exactly when it makes the counter reach the budget. -/
  verdict : 0 < maxRetries → ∀ now base cap leaseID,
    (requeueOrDead now base cap id leaseID e.redis).2 = some .dead ↔
      requeueGuard now id leaseID e.redis = none ∧ e.failures id + 1 = maxRetries
  unlimited : maxRetries ≤ 0 → e.redis.dead.countP (deadOf id) = 0 ∧
    ∀ now base cap leaseID, (requeueOrDead now base cap id leaseID e.redis).2 ≠ some .dead

/-- **Retry budget.** In every run of the core engine every enqueued task keeps its
budget. -/
theorem retry_budget_over_runs {cs : List (Call Body)} {e : Engine Body}
    (hrun : EngineRun CoreCall .init cs e) {a : RouteArgs} (henq : .enqueued a ∈ e.log) :
    BudgetKept e a.id a.maxRetries.toInt := by
  obtain ⟨href, hcnt⟩ := core_counted hrun
  have hh := href.holds a.id
  have hborn : (jobOf e.log a.id).place ≠ .absent := (href.born a.id).mpr ⟨a, henq, rfl⟩
  have hbud := hcnt.budget a henq
  have hfail : ((jobOf e.log a.id).failures : ℤ) = e.failures a.id := by
    rw [hcnt.failures]; rfl
  have hclaim : ((jobOf e.log a.id).grants : ℤ) = e.claims a.id := by
    rw [hcnt.grants]; rfl
  have hbur := hh.ok.buried
  have hwith := hh.ok.within
  rw [hfail, hbud] at hbur hwith
  -- a dead entry exists only when the budget is positive and used up
  have hiff : 0 < a.maxRetries.toInt →
      ((jobOf e.log a.id).place = .buried ↔ e.failures a.id = a.maxRetries.toInt) := by
    intro hpos
    refine ⟨fun hp => (hbur hp).2, fun heq => ?_⟩
    by_contra hne
    have := hwith hne hpos
    omega
  refine ⟨?_, ?_, ?_, ?_, ?_, ?_, ?_⟩
  · intro b hb
    have hfin : (jobOf e.log a.id).place ≠ .finished := by
      intro hf
      rw [hh.finished hf] at hb
      cases hb
    obtain ⟨b', t, hb', hdoc, -, hmax, hatt⟩ := hh.body hborn hfin
    obtain rfl : b' = b := Option.some.inj (hb'.symm.trans hb)
    exact ⟨t, hdoc, hmax.trans hbud, hatt.trans hfail⟩
  · intro hpos
    have := hh.ok.grants_le (by rw [hbud]; exact hpos)
    rwa [hclaim, hbud] at this
  · intro hpos hlive
    refine hwith ?_ hpos
    intro hb
    rcases hlive with hm | hi | hs
    · rw [hh.place_ready hm] at hb; cases hb
    · obtain ⟨l, hl⟩ := hh.inflight.mp hi
      rw [hl] at hb; cases hb
    · rw [hh.scheduled.mp hs] at hb; cases hb
  · intro hpos
    rw [hh.dead]
    by_cases hp : (jobOf e.log a.id).place = .buried
    · rw [if_pos hp, if_pos ((hiff hpos).mp hp)]
    · rw [if_neg hp, if_neg (fun heq => hp ((hiff hpos).mpr heq))]
  · intro b hb hd
    obtain ⟨t, hdoc, -, -, hatt⟩ := hh.entry b hb hd
    refine ⟨t, hdoc, ?_⟩
    have hp : (jobOf e.log a.id).place = .buried := by
      by_contra hne
      rw [hh.no_entry hne b hb] at hd
      cases hd
    rw [hatt, hfail]
    exact (hbur hp).2
  · intro hpos now base cap leaseID
    rw [href.requeueOrDead_dead, Job.lastAttempt, hbud, hfail]
    refine and_congr_right fun hg => ?_
    obtain ⟨l, hl⟩ := href.guard_leased hg
    have := hwith (by simp [hl]) hpos
    omega
  · intro hle
    refine ⟨?_, ?_⟩
    · rw [hh.dead, if_neg]
      intro hp
      have := (hbur hp).1
      omega
    · intro now base cap leaseID hd
      have hlast := ((href.requeueOrDead_dead now base cap a.id leaseID).mp hd).2.1
      rw [hbud] at hlast
      omega

/-- Two claims and two failed attempts of a task with two attempts. -/
def exhaustCalls : List (Call JsonBody) :=
  [⟨0, .routeBody sampleArgs⟩, ⟨0, .routePush sampleArgs 0⟩, ⟨1, .claimBatch ["L1"] 31⟩,
    ⟨2, .requeueOrDead "job" "L1" 1 60⟩, ⟨5, .promoteTask "job"⟩, ⟨6, .claimBatch ["L2"] 36⟩,
    ⟨40, .requeueOrDead "job" "" 1 60⟩]

theorem exhaustCalls_run :
    EngineRun CoreCall .init exhaustCalls (Engine.init.execAll exhaustCalls) :=
  core_run_enqueue (.cons trivial rfl (.cons trivial rfl (.cons trivial rfl
    (.cons trivial rfl (.cons trivial rfl .nil)))))

/-- The second failure is the one that dead-letters. -/
theorem retry_budget_over_runs_exhausted :
    (Engine.init.execAll exhaustCalls).redis.dead.length = 1 ∧
      BudgetKept (Engine.init.execAll exhaustCalls) "job" 2 := by
  have henq : .enqueued sampleArgs ∈ (Engine.init.execAll exhaustCalls).log := by
    decide +kernel
  exact ⟨by decide +kernel, retry_budget_over_runs exhaustCalls_run henq⟩

end Budget

end ForgeQueue
