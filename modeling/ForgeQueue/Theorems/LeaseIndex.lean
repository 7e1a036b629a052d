import ForgeQueue.Logic.Requests
import ForgeQueue.Model.JsonBody

/-!
# Inflight and leases agree

The inflight set and the lease hash are written by six scripts, two transactions and a
wipe, each time as two separate commands. They name the same tasks after any
interleaving of all parties: gateway, workers, recovery, promotion, reconcilers,
operators and wipes.
-/

namespace ForgeQueue

open Base

variable {Body : Type} [BodyCodec Body] [DecidableEq Body]

/-- **Step.** One step of any party keeps the inflight set and the leases together. -/
theorem Coupled.desk_step {d d' : Desk Body} {act : DeskAct Body} (h : Coupled d.redis)
    (hst : d.step act = some d') : Coupled d'.redis := by
  obtain ⟨c, -, rfl⟩ | ⟨k, demand, -, -, rfl⟩ | ⟨k, q, -, -, -, rfl⟩ := Desk.step_cases hst
  · refine (d.redis.after_trace c.now c.op).keeps ?_ h
    intro r ev r' _ heff hr
    exact hr.effect heff
  · exact h
  · show Coupled (q.step d.redis).1
    rw [q.step_write]
    exact h.write q.write

/-- **Run.** -/
theorem Coupled.desk_run {ok : Desk Body → DeskAct Body → Prop} {d d' : Desk Body}
    {acts : List (DeskAct Body)} (h : Coupled d.redis) (hrun : DeskRun ok d acts d') :
    Coupled d'.redis := by
  refine hrun.invariant (fun s : Desk Body => Coupled s.redis) ?_ h
  intro s act s' _ hst hs
  exact hs.desk_step hst

omit [DecidableEq Body] in
/-- Recovery releases any lease whose expiry has passed, whatever becomes of the task. -/
theorem requeueOrDead_releases {r : Redis Body} {t : String} {expiry now : ℚ}
    (he : r.inflight t = some expiry) (hdue : expiry ≤ now) (base cap : ℚ) :
    (requeueOrDead now base cap t "" r).1.inflight t = none ∧
      (requeueOrDead now base cap t "" r).1.leases t = none := by
  have hguard : requeueGuard now t "" r = none := by
    simp [requeueGuard, he, not_lt.mpr hdue]
  have hf := retryOrBury_frame now base cap t (r.release t)
  simp only [requeueOrDead, hguard]
  refine ⟨?_, ?_⟩
  · rw [hf.inflight]
    exact del_self _ _
  · rw [hf.leases]
    exact del_self _ _

/-- In every state that any interleaving of all parties reaches, the inflight set and the
lease hash name the same tasks. So a heartbeat leaves nothing in flight without a lease,
and every lease has an expiry from which on recovery takes it back. -/
theorem inflight_ids_eq_lease_keys {d : Desk Body} {acts : List (DeskAct Body)}
    (hrun : DeskRun (fun _ _ => True) Desk.init acts d) :
    {t | (d.redis.inflight t).isSome} = {t | (d.redis.leases t).isSome} ∧
    (∀ now leaseDuration t l x,
      ((heartbeat now leaseDuration t l d.redis).1.inflight x).isSome →
        (d.redis.leases x).isSome) ∧
    ∀ t l, d.redis.leases t = some l → ∃ expiry, d.redis.inflight t = some expiry ∧
      ∀ now base cap, expiry ≤ now →
        (requeueOrDead now base cap t "" d.redis).1.inflight t = none ∧
        (requeueOrDead now base cap t "" d.redis).1.leases t = none := by
  have hcoupled : Coupled d.redis :=
    Coupled.desk_run (d := Desk.init) Coupled.empty hrun
  refine ⟨?_, ?_, ?_⟩
  · ext t
    show (d.redis.inflight t).isSome = true ↔ (d.redis.leases t).isSome = true
    rw [hcoupled t]
  · intro now leaseDuration t l x hx
    -- the heartbeat is one more step of the run, and it does not touch the leases
    have hbeat : Coupled (heartbeat now leaseDuration t l d.redis).1 := by
      have hstep : d.step (.engine ⟨now, .heartbeat t l leaseDuration⟩) =
        some { d with redis := (heartbeat now leaseDuration t l d.redis).1 } := rfl
      exact hcoupled.desk_step hstep
    have hleases : (heartbeat now leaseDuration t l d.redis).1.leases = d.redis.leases := by
      unfold heartbeat
      split <;> rfl
    rw [← hleases, ← hbeat x]
    exact hx
  · intro t l hl
    obtain ⟨expiry, he⟩ := Option.isSome_iff_exists.mp (hcoupled.inflight hl)
    exact ⟨expiry, he, fun now base cap hdue => requeueOrDead_releases he hdue base cap⟩

/-- An operator requeues the pending job, so it is on the ready list twice; one batch
claims both copies, and the owner of the second one renews its lease. -/
def duplicateClaims : List (DeskAct JsonBody) :=
  [.engine ⟨0, .routeBody sampleArgs⟩, .engine ⟨0, .routePush sampleArgs 0⟩,
    .receive 0 (.action (.requeueJob "job")), .next 0, .next 0, .next 0,
    .engine ⟨1, .claimBatch ["L1", "L2"] 31⟩, .engine ⟨20, .heartbeat "job" "L2" 30⟩]

theorem inflight_ids_eq_lease_keys_duplicate :
    ∃ d : Desk JsonBody, DeskRun (fun _ _ => True) Desk.init duplicateClaims d ∧
      d.redis.leases "job" = some "L2" ∧
      {t | (d.redis.inflight t).isSome} = {t | (d.redis.leases t).isSome} := by
  have hrun : ∃ d : Desk JsonBody, DeskRun (fun _ _ => True) Desk.init duplicateClaims d ∧
      d.redis.leases "job" = some "L2" :=
    ⟨_, .cons trivial rfl (.cons trivial rfl (.cons trivial rfl (.cons trivial rfl
      (.cons trivial rfl (.cons trivial rfl (.cons trivial rfl (.cons trivial rfl .nil))))))),
      rfl⟩
  obtain ⟨d, hrun, hlease⟩ := hrun
  exact ⟨d, hrun, hlease, (inflight_ids_eq_lease_keys hrun).1⟩

end ForgeQueue
