import ForgeQueue.Logic.Paths
import ForgeQueue.Model.JsonBody

/-!
# The abstract life is exact

`Refines` says what the server's keys are for each place a job can be in. What remains is
which jobs there can be. The core engine takes every task along a path of `Job.Step`, and
each path is one the engine can take: nothing is forbidden to a task beyond what the
abstract life forbids, and the only bound on it is the `int32` of its retry budget.
-/

namespace ForgeQueue

open Base

section

variable {Body : Type} [TaskCodec Body]

/-- The engine knows one task only, in the shape of `j`. -/
structure Solo (e : Engine Body) (id : String) (j : Job String) : Prop where
  refines : Refines e.redis e.log
  job : jobOf e.log id = j
  other : ∀ x, x ≠ id → x ∉ e.redis.immediate
  unpaused : e.redis.paused = false
  fresh : j.place = .absent → e = .init

theorem Solo.init (id : String) : Solo (Engine.init : Engine Body) id .unborn where
  refines := .init
  job := rfl
  other _ _ := List.not_mem_nil
  unpaused := rfl
  fresh _ := rfl

/-- A ready task that is alone is the whole ready list. -/
theorem Solo.immediate {e : Engine Body} {id : String} {j : Job String} (h : Solo e id j)
    (hp : j.place = .ready) : e.redis.immediate = [id] := by
  have hcount := (h.refines.holds id).ready
  rw [h.job, if_pos hp] at hcount
  have hall : ∀ x ∈ e.redis.immediate, x = id := by
    intro x hx
    by_contra hne
    exact h.other x hne hx
  rw [List.eq_replicate_of_mem hall, List.count_replicate_self] at hcount
  rw [List.eq_replicate_of_mem hall, hcount]
  rfl

/-- The arguments of a call that creates a given job. -/
def argsOf (id : String) (delayed : Bool) (budget : ℤ) : RouteArgs where
  id := id
  taskType := ""
  payload := none
  maxRetries := Int32.ofInt budget
  delaySeconds := if delayed then 1 else 0

/-- A call that reports one event moves the job by it. -/
theorem Solo.exec {e : Engine Body} {id : String} {j : Job String} (h : Solo e id j)
    {c : Call Body} (hc : CoreCall e c) {ev : Event} (hev : e.redis.events c.now c.op = [ev])
    (hother : ∀ x, x ≠ id → x ∉ (e.redis.after c.now c.op).immediate)
    (hp : (e.redis.after c.now c.op).paused = e.redis.paused)
    (hborn : (advance id ev j).place ≠ .absent) :
    ∃ cs e', EngineRun CoreCall e cs e' ∧ Solo e' id (advance id ev j) := by
  refine ⟨[c], e.exec c, .cons hc rfl .nil, h.refines.exec hc, ?_, hother,
    hp.trans h.unpaused, fun hab => absurd hab hborn⟩
  show jobOf ((e.redis.events c.now c.op).reverse ++ e.log) id = _
  rw [hev, ← h.job]
  rfl

/-- **Step.** Every move of the life is one call away, the first one two. -/
theorem Solo.step {e : Engine Body} {id : String} {j j' : Job String} (h : Solo e id j)
    (hs : j.Step j') (hb : inInt32 j'.budget) :
    ∃ cs e', EngineRun CoreCall e cs e' ∧ Solo e' id j' := by
  have hh := h.refines.holds id
  rw [h.job] at hh
  cases hs with
  | create delayed budget hp =>
    obtain rfl := h.fresh hp
    have hrun : EngineRun CoreCall (.init : Engine Body)
        [⟨0, .routeBody (argsOf id delayed budget)⟩, ⟨0, .routePush (argsOf id delayed budget) 0⟩]
        _ := core_run_enqueue .nil
    refine ⟨_, _, hrun, core_refines hrun, ?_, ?_, ?_, ?_⟩
    · have hmax : (Int32.ofInt budget).toInt = budget :=
        Int32.toInt_ofInt_of_le hb.1 hb.2
      cases delayed <;>
        simp [Engine.exec, Redis.events, Engine.init, jobOf, advance, argsOf, hmax]
    · intro x hx
      cases delayed <;>
        simp [Engine.exec, Redis.after, Engine.init, Redis.empty, routePush, routeTarget,
          argsOf, hx]
    · exact routePush_paused _ _ _
    · intro hab
      cases delayed <;> simp [Job.create] at hab
  | grant token hp =>
    have himm := h.immediate hp
    have hev : e.redis.events 0 (.claimBatch [token] 0) = [.claimed id token 0] := by
      simp [Redis.events, claimBatch, claimLoop, h.unpaused, himm]
    have hnew := h.exec (c := ⟨0, .claimBatch [token] 0⟩) trivial hev
      (by intro x hx; simp [Redis.after, claimBatch, claimLoop, h.unpaused, himm])
      (by simp [Redis.after, claimBatch, claimLoop, h.unpaused, himm])
      (by simp [advance, Job.grant])
    simp only [advance, if_true] at hnew
    exact hnew
  | finish hp =>
    rename_i token
    have hl : e.redis.leases id = some token := (hh.lease token).mpr hp
    have hev : e.redis.events 0 (.ackBatch [(id, token)]) = [.acked id token] := by
      simp [Redis.events, ackedPairs, hl]
    have hnew := h.exec (c := ⟨0, .ackBatch [(id, token)]⟩) trivial hev
      (by simpa [Redis.after, ackBatch, hl] using h.other)
      (by simp [Redis.after, ackBatch, hl, Redis.release])
      (by simp [advance, Job.finish])
    simp only [advance, if_true] at hnew
    exact hnew
  | fail hp =>
    obtain ⟨x, hx⟩ := Option.isSome_iff_exists.mp (hh.inflight.mpr ⟨_, hp⟩)
    -- a recovery at the very moment the lease expires
    have hguard : requeueGuard x id "" e.redis = none := by simp [requeueGuard, hx]
    have hframe := retryOrBury_frame x 1 60 id (e.redis.release id)
    have hev : e.redis.events x (.requeueOrDead id "" 1 60) =
        [.reclaimed id (e.redis.leases id)
          (retryOrBury x 1 60 id (e.redis.release id)).2] := by
      simp [Redis.events, requeueEvents, hguard]
    have hafter : e.redis.after x (.requeueOrDead id "" 1 60) =
        (retryOrBury x 1 60 id (e.redis.release id)).1 := by
      simp [Redis.after, requeueOrDead, hguard]
    obtain ⟨_, -, -, hlast, -⟩ := hh.retry hp x 1 60
    have hnew := h.exec (c := ⟨x, .requeueOrDead id "" 1 60⟩) trivial hev
      (by rw [hafter, hframe.immediate]; exact h.other)
      (by rw [hafter, hframe.paused]; rfl)
      (by simp only [advance, if_true, Job.fail]; split <;> simp)
    simp only [advance, if_true, decide_eq_decide.mpr hlast] at hnew
    exact hnew
  | promote hp =>
    obtain ⟨x, hx⟩ := Option.isSome_iff_exists.mp (hh.scheduled.mpr hp)
    have hev : e.redis.events x (.promoteTask id) = [.promoted id] := by
      simp [Redis.events, promoteTask, hx]
    have hnew := h.exec (c := ⟨x, .promoteTask id⟩) trivial hev
      (by
        intro y hy
        simp only [Redis.after, promoteTask, hx, lt_irrefl, if_false, List.mem_cons, not_or]
        exact ⟨hy, h.other y hy⟩)
      (by simp [Redis.after, promoteTask, hx])
      (by simp [advance, Job.promote])
    simp only [advance, if_true] at hnew
    exact hnew

/-- **Run.** Every path is one the engine can take. -/
theorem Solo.path {e : Engine Body} {id : String} {j j' : Job String} (h : Solo e id j)
    (hs : j.Path j') (hb : inInt32 j'.budget) :
    ∃ cs e', EngineRun CoreCall e cs e' ∧ Solo e' id j' := by
  induction hs with
  | refl => exact ⟨[], e, .nil, h⟩
  | @tail k k' hpath hstep ih =>
    have hk : ∃ cs e', EngineRun CoreCall e cs e' ∧ Solo e' id k := by
      by_cases hp : k.place = .absent
      · -- nothing leads back before the creation, so the path has not begun
        rw [Job.Path.eq_of_absent hpath hp]
        exact ⟨[], e, .nil, h⟩
      · exact ih (hstep.budget hp ▸ hb)
    obtain ⟨cs, e₁, hrun, hsolo⟩ := hk
    obtain ⟨cs', e₂, hrun', hsolo'⟩ := hsolo.step hstep hb
    exact ⟨cs ++ cs', e₂, hrun.append hrun', hsolo'⟩

/-- **Exact lives.** A task can be a job `j` at one moment and `j'` at a later one of some
run of the core engine exactly when the abstract life leads from its beginning to `j` and
from there to `j'`, with a retry budget that is an `int32`. -/
theorem lives_exact (id : String) (j j' : Job String) :
    (∃ (cs cs' : List (Call Body)) (e e' : Engine Body), EngineRun CoreCall .init cs e ∧
      EngineRun CoreCall e cs' e' ∧ jobOf e.log id = j ∧ jobOf e'.log id = j') ↔
    Job.unborn.Path j ∧ j.Path j' ∧ inInt32 j'.budget := by
  constructor
  · rintro ⟨cs, cs', e, e', hrun, hrun', rfl, rfl⟩
    have href := core_refines hrun
    exact ⟨Refines.init.job_path hrun id, href.job_path hrun' id,
      ((core_refines (hrun.append hrun')).holds id).range⟩
  · rintro ⟨hpath, hpath', hb⟩
    have hbj : inInt32 j.budget := by
      by_cases hp : j.place = .absent
      · rw [Job.Path.eq_of_absent hpath hp]
        show inInt32 0
        decide
      · exact Job.Path.budget hpath' hp ▸ hb
    have hinit : Solo (.init : Engine Body) id .unborn := .init id
    obtain ⟨cs, e, hrun, hsolo⟩ := hinit.path hpath hbj
    obtain ⟨cs', e', hrun', hsolo'⟩ := hsolo.path hpath' hb
    exact ⟨cs, cs', e, e', hrun, hrun', hsolo.job, hsolo'.job⟩

end

end ForgeQueue
