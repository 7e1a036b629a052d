import ForgeQueue.Logic.Gaps
import ForgeQueue.Logic.Lifecycle
import ForgeQueue.Model.Backoff
import ForgeQueue.Model.JsonBody

/-!
# Due times are honoured by Redis's clock

A pool picks the tasks to promote with a clock of its own, so here its promotion loop is
what the server sees of it: `promoteTask` calls for any task at any time. The script
compares the score with Redis's clock again, and there is no other way out of the
scheduled set, so a task is not claimed before its score.
-/

namespace ForgeQueue

open Base

variable {Body : Type}

variable [TaskCodec Body]

/-- A retry that was scheduled: the counter the body now holds, and the score. -/
theorem Refines.retry_score {r : Redis Body} {log : List Event} (h : Refines r log)
    {now base cap : ℚ} {id leaseID : String}
    (hstatus : (requeueOrDead now base cap id leaseID r).2 = some .scheduled) :
    ∃ a : ℕ, 1 ≤ a ∧
      (∃ b t, (requeueOrDead now base cap id leaseID r).1.task id = some b ∧ IsDoc b t ∧
        t.attempts = a) ∧
      (requeueOrDead now base cap id leaseID r).1.scheduled id =
        some (now + min cap (base * 2 ^ (a - 1))) := by
  cases hg : requeueGuard now id leaseID r with
  | some status =>
    simp only [requeueOrDead, hg] at hstatus
    obtain rfl := Option.some.inj hstatus
    exact absurd rfl (requeueGuard_rejects hg).2
  | none =>
    simp only [requeueOrDead, hg] at hstatus ⊢
    obtain ⟨l, hp⟩ := h.guard_leased hg
    obtain ⟨b, t, hb, hdoc, -, -, hatt⟩ :=
      (h.holds id).body (by simp [hp]) (by simp [hp])
    obtain ⟨b', hdoc', heq⟩ := retryOrBury_doc now base cap id (r.release id) hb hdoc
    rw [heq] at hstatus ⊢
    by_cases hx : t.Exhausted
    · rw [if_pos hx] at hstatus
      cases hstatus
    · rw [if_neg hx]
      refine ⟨(jobOf log id).failures + 1, by omega, ⟨b', t.bump, put_self _ _ _, hdoc', ?_⟩, ?_⟩
      · rw [TaskMetaData.bump, hatt]
        rfl
      · have hcast : ((t.attempts + 1 : ℤ) : ℚ) = ((jobOf log id).failures + 1 : ℕ) := by
          rw [hatt]
          push_cast
          rfl
        rw [hcast, scriptBackoff_eq (by omega)]
        exact put_self _ _ _

/-! ## The way out of the scheduled set -/

/-- A scheduled task is neither ready nor leased, so nothing but a promotion touches its
entry. -/
theorem Refines.keeps_score {r r' : Redis Body} {log : List Event} {ev : Event} {id : String}
    {s : ℚ} (h : Refines r log) (hok : CoreOk log ev) (heff : Effect r ev r')
    (hev : ev ≠ .promoted id) (hs : r.scheduled id = some s) : r'.scheduled id = some s := by
  have hplace := (h.holds id).place_waiting hs
  by_cases hsub : ev.subject = some id
  swap
  · have hw : ev ≠ .wiped := by
      rintro rfl
      exact hok
    exact (heff.sameAt hsub hw).scheduled.trans hs
  have hlease : ∀ l, r.leases id ≠ some l := by
    intro l hl
    exact nomatch hplace.symm.trans ((h.holds id).place_leased hl)
  cases heff with
  | bodySet a => exact hs
  | enqueued a clock =>
    -- an enqueued task is not enqueued again
    obtain rfl : a.id = id := Option.some.inj hsub
    obtain ⟨a', ha', hid⟩ := (h.born a.id).mp (by rw [hplace]; nofun)
    exact absurd hid (hok.2 a' ha')
  | paused on => exact hs
  | claimed t ready l e _ _ => exact hs
  | beat t l e _ => exact hs
  | acked t l _ => exact hs
  | failed t l now base cap _ hl =>
    obtain rfl : t = id := Option.some.inj hsub
    exact absurd hl (hlease l)
  | reclaimed t e now base cap he _ =>
    obtain rfl : t = id := Option.some.inj hsub
    obtain ⟨l, hl⟩ := (h.holds t).inflight.mp (by rw [he]; rfl)
    exact nomatch hplace.symm.trans hl
  | promoted t score now _ _ =>
    obtain rfl : t = id := Option.some.inj hsub
    exact absurd rfl hev
  | materialized _ _ _ _ => exact hok.elim
  | requeued _ => exact hok.elim
  | deleted _ => exact hok.elim
  | wiped => exact hok.elim

/-- **Step.** The entry stays, or its time has come by Redis's clock. -/
theorem Refines.due_step {e : Engine Body} {c : Call Body} {id : String} {s : ℚ}
    (h : Refines e.redis e.log) (hok : CoreCall e c) (hs : e.redis.scheduled id = some s) :
    (e.exec c).redis.scheduled id = some s ∨ s ≤ c.now := by
  obtain ⟨now, op⟩ := c
  by_cases hpromote : op = .promoteTask id
  · subst hpromote
    by_cases hlt : now < s
    · left
      show (promoteTask now id e.redis).1.scheduled id = some s
      simp only [promoteTask, hs, if_pos hlt]
    · exact .inr (not_lt.mp hlt)
  · left
    have hno : ∀ ev ∈ e.redis.events now op, ev ≠ .promoted id := by
      rintro ev hev rfl
      exact hpromote (Op.emits_source (Redis.emits_of_mem hev))
    have hstep : ∀ (r : Redis Body) log ev r', (CoreOk log ev ∧ ev ≠ .promoted id) →
        Effect r ev r' → (Refines r log ∧ r.scheduled id = some s) →
        Refines r' (ev :: log) ∧ r'.scheduled id = some s :=
      fun r log ev r' hP heff hI =>
        ⟨hI.1.effect hP.1 heff, hI.1.keeps_score hP.1 heff hP.2 hI.2⟩
    exact ((e.redis.after_trace now op).invariant hstep e.log (hok.allowed.and hno) ⟨h, hs⟩).2

/-- A scheduled task is not claimed. -/
theorem Refines.not_claimed {r : Redis Body} {log : List Event} {id : String} {s : ℚ}
    (h : Refines r log) (hs : r.scheduled id = some s) (leaseIDs : List String) (expiry : ℚ) :
    ∀ k ∈ (claimBatch leaseIDs expiry r).2, k.taskID ≠ id := by
  rintro k hk rfl
  have hready : k.taskID ∈ r.immediate := by
    cases hp : r.paused with
    | true =>
      rw [claimBatch_paused hp] at hk
      cases hk
    | false =>
      rw [claimBatch_eq hp, ← List.map_uncurry_zip_eq_zipWith] at hk
      obtain ⟨p, hmem, rfl⟩ := List.mem_map.mp hk
      exact List.mem_of_mem_take (List.of_mem_zip hmem).1
  have hplace := (h.holds k.taskID).place_waiting hs
  exact nomatch hplace.symm.trans ((h.holds k.taskID).place_ready hready)

/-- **Run.** Along a run with a non-decreasing clock the entry stays, or its time has come. -/
theorem Refines.due_run {id : String} {s now : ℚ} {e e' : Engine Body} {cs : List (Call Body)}
    (hrun : EngineRun CoreCall e cs e') :
    Refines e.redis e.log → (cs.map Call.now ++ [now]).Pairwise (· ≤ ·) →
      e.redis.scheduled id = some s ∨ s ≤ now →
      Refines e'.redis e'.log ∧ (e'.redis.scheduled id = some s ∨ s ≤ now) := by
  induction hrun with
  | nil => exact fun h _ hs => ⟨h, hs⟩
  | @cons e c e₁ cs e' hok hst hrest ih =>
    intro h hclock hs
    obtain rfl : e.exec c = e₁ := Option.some.inj hst
    have h₁ : Refines (e.exec c).redis (e.exec c).log :=
      EngineRun.invariant Refines (fun _ _ hok => hok.allowed)
        (fun _ _ _ _ hok heff hr => hr.effect hok heff) (.cons hok hst .nil) h
    rw [List.map_cons, List.cons_append, List.pairwise_cons] at hclock
    refine ih h₁ hclock.2 ?_
    rcases hs with hs | hs
    · refine (h.due_step hok hs).imp_right fun hdue => hdue.trans (hclock.1 now ?_)
      exact List.mem_append_right _ List.mem_cons_self
    · exact .inr hs

/-- In every run of gateway, workers, recovery and promotion loops: a task that is
scheduled for `s` is not claimed before Redis's clock has reached `s`; and a retry that
`requeueOrDead` schedules at Redis time `T` with its counter at `a` is scheduled for
`T + min cap (base * 2^(a-1))`. -/
theorem due_times_honoured {cs : List (Call Body)} {e : Engine Body}
    (hrun : EngineRun CoreCall .init cs e) (id : String) :
    (∀ s, e.redis.scheduled id = some s → ∀ between e' now leaseIDs expiry,
      EngineRun CoreCall e between e' → (between.map Call.now ++ [now]).Pairwise (· ≤ ·) →
      (∃ k ∈ (claimBatch leaseIDs expiry e'.redis).2, k.taskID = id) → s ≤ now) ∧
    ∀ now base cap leaseID,
      (requeueOrDead now base cap id leaseID e.redis).2 = some .scheduled →
      ∃ a : ℕ, 1 ≤ a ∧
        (∃ b t, (requeueOrDead now base cap id leaseID e.redis).1.task id = some b ∧
          IsDoc b t ∧ t.attempts = a) ∧
        (requeueOrDead now base cap id leaseID e.redis).1.scheduled id =
          some (now + min cap (base * 2 ^ (a - 1))) := by
  have h := core_refines hrun
  refine ⟨?_, ?_⟩
  · intro s hs between e' now leaseIDs expiry hbetween hclock ⟨k, hk, hid⟩
    obtain ⟨h', hs' | hdue⟩ := Refines.due_run hbetween h hclock (.inl hs)
    · exact absurd hid (h'.not_claimed hs' leaseIDs expiry k hk)
    · exact hdue
  · intro now base cap leaseID hstatus
    exact h.retry_score hstatus

/-- The job fails at 2 and is due at 3. -/
def retriedCalls : List (Call JsonBody) :=
  [⟨0, .routeBody sampleArgs⟩, ⟨0, .routePush sampleArgs 0⟩, ⟨1, .claimBatch ["L1"] 31⟩,
    ⟨2, .requeueOrDead "job" "L1" 1 60⟩]

/-- A pool whose clock is ahead tries too early. -/
def promotionCalls : List (Call JsonBody) := [⟨2, .promoteTask "job"⟩, ⟨3, .promoteTask "job"⟩]

theorem due_times_honoured_retry :
    (Engine.init.execAll retriedCalls : Engine JsonBody).redis.scheduled "job" = some 3 ∧
    (∃ k ∈ (claimBatch ["L2"] 34
      ((Engine.init.execAll retriedCalls).execAll promotionCalls).redis).2, k.taskID = "job") ∧
    (3 : ℚ) ≤ 4 := by
  have hscore : (Engine.init.execAll retriedCalls : Engine JsonBody).redis.scheduled "job" =
      some 3 := by
    decide +kernel
  have hclaim : ∃ k ∈ (claimBatch ["L2"] 34
      ((Engine.init.execAll retriedCalls).execAll promotionCalls).redis).2, k.taskID = "job" := by
    have hids : (claimBatch ["L2"] 34
        ((Engine.init.execAll retriedCalls).execAll promotionCalls).redis).2.map
        TaskClaim.taskID = ["job"] := by
      decide +kernel
    obtain ⟨k, hk, hid⟩ := List.map_eq_singleton_iff.mp hids
    exact ⟨k, by rw [hk]; exact List.mem_cons_self, hid⟩
  have hrun : EngineRun CoreCall .init retriedCalls (Engine.init.execAll retriedCalls) :=
    core_run_enqueue (.cons trivial rfl (.cons trivial rfl .nil))
  have hpromote : EngineRun CoreCall (Engine.init.execAll retriedCalls) promotionCalls
      ((Engine.init.execAll retriedCalls).execAll promotionCalls) :=
    .cons trivial rfl (.cons trivial rfl .nil)
  refine ⟨hscore, hclaim, ?_⟩
  exact (due_times_honoured hrun "job").1 3 hscore promotionCalls _ 4 ["L2"] 34 hpromote
    (by decide +kernel) hclaim

end ForgeQueue
