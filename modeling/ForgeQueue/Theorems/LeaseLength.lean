import ForgeQueue.Theorems.Fencing
import Mathlib.Tactic.Linarith

/-!
# How long a fresh lease lasts

Heartbeats and recovery read Redis's clock. The first expiry of a lease is the exception:
`claimBatch` computes it in Go from the worker's clock. A worker whose clock is behind
Redis's gets a lease that is shorter than `leaseDuration` by the difference, and recovery
may take the task away at once.
-/

namespace ForgeQueue

open Base

section

variable {Body : Type}

/-- The expiry of a task after a claim. -/
theorem claimLoop_inflight (t : String) (expiry : ℚ) (leaseIDs : List String) :
    ∀ r : Redis Body, (claimLoop expiry leaseIDs r).1.inflight t =
      if t ∈ (claimLoop expiry leaseIDs r).2 then some expiry else r.inflight t := by
  induction leaseIDs with
  | nil => intro r; rfl
  | cons l rest ih =>
    intro r
    cases hr : r.immediate with
    | nil => simp [claimLoop, hr]
    | cons taskID ready =>
      simp only [claimLoop, hr, ih, List.mem_cons]
      by_cases ht : t = taskID
      · simp [ht]
      · simp [ht]

/-- A task the script handed out is in flight until the expiry it was given. -/
theorem claimBatch_inflight {leaseIDs : List String} {expiry : ℚ} {r : Redis Body}
    {k : TaskClaim Body} (hk : k ∈ (claimBatch leaseIDs expiry r).2) :
    (claimBatch leaseIDs expiry r).1.inflight k.taskID = some expiry := by
  obtain ⟨heq, hmem⟩ := claimBatch_mem hk
  rw [heq, claimLoop_inflight, if_pos (List.of_mem_zip hmem).1]

/-- The owner's heartbeats ask for the pool's lease duration. -/
def OwnerBeats (t l : String) (d : ℚ) (c : Call Body) : Prop :=
  ∀ d', c.op = .heartbeat t l d' → d' = d

variable [BodyCodec Body]

/-- While the lease is current it lasts at least until `deadline`. -/
structure LastsUntil (t l : String) (deadline : ℚ) (r : Redis Body) (log : List Event) :
    Prop where
  granted : Granted log t l
  expiry : r.leases t = some l → ∃ x, r.inflight t = some x ∧ deadline ≤ x

/-- A renewal of the lease does not shorten it. -/
def Event.Extends (t l : String) (deadline : ℚ) (ev : Event) : Prop :=
  ∀ x, ev = .beat t l x → deadline ≤ x

/-- **Step.** No event shortens the lease: it is renewed for longer, it ends, or it is left
alone. -/
theorem LastsUntil.effect {t l : String} {deadline : ℚ} {r r' : Redis Body} {log : List Event}
    {ev : Event} (h : LastsUntil t l deadline r log) (hfresh : FreshOk log ev)
    (hext : ev.Extends t l deadline) (heff : Effect r ev r') :
    LastsUntil t l deadline r' (ev :: log) := by
  refine ⟨h.granted.cons ev, fun hl => ?_⟩
  -- the token is not granted again, so it was current before
  have hold : r.leases t = some l := by
    rcases heff.lease_origin hl with hold | ⟨e, rfl⟩
    · exact hold
    · exact absurd h.granted (hfresh.2 t)
  obtain ⟨x, hx, hle⟩ := h.expiry hold
  by_cases hsub : ev.subject = some t
  swap
  · have hw : ev ≠ .wiped := by
      rintro rfl
      cases heff
      cases hl
    exact ⟨x, (heff.sameAt hsub hw).inflight.trans hx, hle⟩
  cases heff with
  | bodySet a => exact ⟨x, hx, hle⟩
  | enqueued a clock =>
    refine ⟨x, ?_, hle⟩
    unfold routePush
    split <;> exact hx
  | paused on => exact ⟨x, hx, hle⟩
  | claimed t' ready l' e _ _ =>
    obtain rfl : t' = t := Option.some.inj hsub
    have heq : l' = l := Option.some.inj ((put_self r.leases t' l').symm.trans hl)
    exact absurd (heq ▸ h.granted) (hfresh.2 t')
  | beat t' l' e hl' =>
    obtain rfl : t' = t := Option.some.inj hsub
    obtain rfl := Option.some.inj (hl'.symm.trans hold)
    exact ⟨e, put_self _ _ _, hext e rfl⟩
  | acked t' l' _ =>
    obtain rfl : t' = t := Option.some.inj hsub
    exact nomatch (del_self r.leases t').symm.trans hl
  | failed t' l' now base cap _ _ =>
    obtain rfl : t' = t := Option.some.inj hsub
    rw [(retryOrBury_frame now base cap t' (r.release t')).leases] at hl
    exact nomatch (del_self r.leases t').symm.trans hl
  | reclaimed t' e now base cap _ _ =>
    obtain rfl : t' = t := Option.some.inj hsub
    rw [(retryOrBury_frame now base cap t' (r.release t')).leases] at hl
    exact nomatch (del_self r.leases t').symm.trans hl
  | promoted t' score now _ _ => exact ⟨x, hx, hle⟩
  | materialized t' target payload _ =>
    refine ⟨x, ?_, hle⟩
    unfold routePush
    split <;> exact hx
  | requeued t' =>
    obtain rfl : t' = t := Option.some.inj hsub
    exact nomatch (del_self r.leases t').symm.trans hl
  | deleted t' =>
    obtain rfl : t' = t := Option.some.inj hsub
    exact nomatch (del_self r.leases t').symm.trans hl
  | wiped => cases hl

/-- A command after `since` extends the lease to `since + d` at least. -/
theorem OwnerBeats.extends {t l : String} {d since : ℚ} {c : Call Body}
    (h : OwnerBeats t l d c) (hnow : since ≤ c.now) (r : Redis Body) :
    ∀ ev ∈ r.events c.now c.op, ev.Extends t l (since + d) := by
  rintro ev hev x rfl
  obtain ⟨now, op⟩ := c
  obtain ⟨d', rfl⟩ := Op.emits_source (Redis.emits_of_mem hev)
  simp only [Redis.events] at hev
  split at hev
  · obtain rfl : x = now + d' := by
      injection List.mem_singleton.mp hev
    rw [h d' rfl]
    exact add_le_add_left hnow d
  · cases hev

/-- **Run.** -/
theorem LastsUntil.run {t l : String} {d since now : ℚ} {e e' : Engine Body}
    {cs : List (Call Body)}
    (hrun : EngineRun (fun e c => FreshTokens e c ∧ OwnerBeats t l d c) e cs e')
    (hclock : (since :: cs.map Call.now ++ [now]).Pairwise (· ≤ ·))
    (h : LastsUntil t l (since + d) e.redis e.log) :
    LastsUntil t l (since + d) e'.redis e'.log := by
  have hlater : ∀ c ∈ cs, since ≤ c.now := by
    intro c hc
    rw [List.cons_append, List.pairwise_cons] at hclock
    exact hclock.1 _ (List.mem_append_left _ (List.mem_map_of_mem hc))
  have hallowed : ∀ (e : Engine Body) (c : Call Body),
      (FreshTokens e c ∧ OwnerBeats t l d c) ∧ c ∈ cs →
      Allowed (fun log ev => FreshOk log ev ∧ ev.Extends t l (since + d)) e.log
        (e.redis.events c.now c.op) :=
    fun e c hok => hok.1.1.allowed.and (hok.1.2.extends (hlater c hok.2) e.redis)
  exact EngineRun.invariant _ hallowed
    (fun _ _ _ _ hok heff hi => hi.effect hok.1 hok.2 heff) hrun.and_mem h

/-- A recovery call that finds the lease expired takes it. -/
theorem requeueOrDead_takes {r : Redis Body} {t l : String} {x now : ℚ}
    (hl : r.leases t = some l) (hx : r.inflight t = some x) (hdue : x ≤ now) (base cap : ℚ) :
    requeueOrDead now base cap t "" r ≠ (r, some .renewed) := by
  intro heq
  have hguard : requeueGuard now t "" r = none := by
    simp [requeueGuard, hx, not_lt.mpr hdue]
  have hgone : (requeueOrDead now base cap t "" r).1.leases t = none := by
    simp only [requeueOrDead, hguard]
    rw [(retryOrBury_frame now base cap t (r.release t)).leases]
    exact del_self _ _
  rw [heq, hl] at hgone
  cases hgone

/-- For every worker clock, batch size and positive lease duration: a lease granted at
Redis time `T` is safe from recovery at every Redis time before `T + leaseDuration`,
whatever runs in between, exactly when the worker's clock was not behind Redis's. -/
theorem lease_lasts_iff_clock_not_behind {cs : List (Call Body)} {e : Engine Body}
    (hrun : EngineRun FreshTokens .init cs e) {T clock leaseDuration : ℚ}
    {leaseIDs : List String} {t l : String} (hpos : 0 < leaseDuration)
    (hgrant : ∃ k ∈ (claimBatch leaseIDs (leaseExpiry clock leaseDuration) e.redis).2,
      k.taskID = t)
    (hlease : (claimBatch leaseIDs (leaseExpiry clock leaseDuration) e.redis).1.leases t =
      some l)
    (hfresh : FreshTokens e ⟨T, .claimBatch leaseIDs (leaseExpiry clock leaseDuration)⟩) :
    (∀ between e' now base cap,
      EngineRun (fun e c => FreshTokens e c ∧ OwnerBeats t l leaseDuration c)
        (e.exec ⟨T, .claimBatch leaseIDs (leaseExpiry clock leaseDuration)⟩) between e' →
      (T :: between.map Call.now ++ [now]).Pairwise (· ≤ ·) → now < T + leaseDuration →
      e'.redis.leases t = some l →
      requeueOrDead now base cap t "" e'.redis = (e'.redis, some .renewed)) ↔
    T ≤ clock := by
  obtain ⟨k, hk, rfl⟩ := hgrant
  have hinflight := claimBatch_inflight hk
  constructor
  · intro hall
    by_contra hbehind
    -- recovery runs at the expiry the worker computed, or at once if that is past already
    have hnow : max T (leaseExpiry clock leaseDuration) < T + leaseDuration := by
      rw [max_lt_iff, leaseExpiry]
      constructor
      · linarith
      · linarith
    have hrenewed := hall [] _ (max T (leaseExpiry clock leaseDuration)) 0 0 .nil
      (by simp) hnow hlease
    exact requeueOrDead_takes hlease hinflight (le_max_right _ _) 0 0 hrenewed
  · intro hclock between e' now base cap hbetween hsorted hnow hlease'
    have hstart : LastsUntil k.taskID l (T + leaseDuration)
        (e.exec ⟨T, .claimBatch leaseIDs (leaseExpiry clock leaseDuration)⟩).redis
        (e.exec ⟨T, .claimBatch leaseIDs (leaseExpiry clock leaseDuration)⟩).log := by
      refine ⟨?_, fun _ => ⟨_, hinflight, ?_⟩⟩
      · have hleases := leases_of_run (hrun.snoc hfresh rfl)
        exact hleases.granted k.taskID l hlease
      · rw [leaseExpiry]
        linarith
    obtain ⟨x, hx, hle⟩ := (LastsUntil.run hbetween hsorted hstart).expiry hlease'
    have hlt : now < x := lt_of_lt_of_le hnow hle
    simp [requeueOrDead, requeueGuard, hx, hlt]

end

/-! ## A worker whose clock is right, and one that is behind -/

/-- The job is pending. -/
def readyCalls : List (Call JsonBody) :=
  [⟨0, .routeBody sampleArgs⟩, ⟨0, .routePush sampleArgs 0⟩]

theorem readyCalls_run :
    EngineRun FreshTokens .init readyCalls (Engine.init.execAll readyCalls) :=
  .cons trivial rfl (.cons trivial rfl .nil)

/-- A claim at 100 by a worker whose clock reads 100: recovery at 109 finds the lease
renewed. -/
theorem lease_lasts_iff_clock_not_behind_in_step :
    requeueOrDead 109 1 60 "job" "" ((Engine.init.execAll readyCalls).exec
        ⟨100, .claimBatch ["L1"] (leaseExpiry 100 10)⟩ : Engine JsonBody).redis =
      (((Engine.init.execAll readyCalls).exec
        ⟨100, .claimBatch ["L1"] (leaseExpiry 100 10)⟩).redis, some .renewed) := by
  have hfresh : FreshTokens (Engine.init.execAll readyCalls : Engine JsonBody)
      ⟨100, .claimBatch ["L1"] (leaseExpiry 100 10)⟩ := by
    refine ⟨by decide, fun l hl => ?_⟩
    obtain rfl := List.mem_singleton.mp hl
    refine ⟨by decide, ?_⟩
    rintro t ⟨x, hx⟩
    simp [readyCalls, Engine.execAll, Engine.exec, Engine.init, Redis.events] at hx
  exact (lease_lasts_iff_clock_not_behind readyCalls_run (by norm_num)
    ⟨⟨"job", "L1", some (marshal (routeData sampleArgs))⟩, List.mem_cons_self, rfl⟩ rfl
    hfresh).mpr le_rfl [] _ 109 1 60 .nil (by decide +kernel) (by norm_num) rfl

/-- **Reclaimed at once.** The worker's clock is 20 seconds behind and the lease should
last for 10: a recovery call at the very Redis time of the claim takes the task. -/
theorem lease_reclaimed_at_claim_time :
    EngineRun FreshTokens .init readyCalls (Engine.init.execAll readyCalls) ∧
    ((Engine.init.execAll readyCalls).exec
      ⟨100, .claimBatch ["L1"] (leaseExpiry 80 10)⟩ : Engine JsonBody).redis.leases "job" =
        some "L1" ∧
    (100 : ℚ) < 100 + 10 ∧
    (requeueOrDead 100 1 60 "job" "" ((Engine.init.execAll readyCalls).exec
      ⟨100, .claimBatch ["L1"] (leaseExpiry 80 10)⟩ : Engine JsonBody).redis).2 =
        some .scheduled := by
  refine ⟨readyCalls_run, rfl, by norm_num, ?_⟩
  decide +kernel

end ForgeQueue
