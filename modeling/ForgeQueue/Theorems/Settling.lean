import ForgeQueue.Logic.Counts
import ForgeQueue.Logic.Paths
import ForgeQueue.Model.JsonBody
import ForgeQueue.Model.Loops
import ForgeQueue.Theorems.Conservation

/-!
# No task is stuck

An infinite run of the core engine, with any calls in any order, in which the loops keep
ticking and the workers keep claiming. Every task with a retry budget comes to its end,
acknowledged or in the dead list, and stays there; a task without one is acknowledged or
tried again without end.

What is assumed of the components is what their loops do: a recovery tick reads its
candidates and sends one script for each of them, at some time, with any number of other
calls between; heartbeats of a lease stop with its handler; clocks go on.
-/

namespace ForgeQueue

open Base

section

variable {Body : Type} [BodyCodec Body]

/-- The engine before call number `n` of an infinite sequence of calls. -/
def Engine.upTo (calls : ℕ → Call Body) : ℕ → Engine Body
  | 0 => .init
  | n + 1 => (Engine.upTo calls n).exec (calls n)

/-- The loops tick and the workers claim, for ever. -/
structure Fair (calls : ℕ → Call Body) : Prop where
  core : ∀ n, CoreCall (Engine.upTo calls n) (calls n)
  /-- Whatever is in the ready list is popped some time. Claims alone do not give this, since
  the list is a stack and newer tasks may keep coming. -/
  claim : ∀ n id, id ∈ (Engine.upTo calls n).redis.immediate →
    ∃ m, n ≤ m ∧ id ∉ (Engine.upTo calls m).redis.immediate
  /-- No lease is renewed for ever. -/
  heartbeat : ∀ n id l, (Engine.upTo calls n).redis.leases id = some l →
    ∃ m, n ≤ m ∧ ∀ k, m ≤ k → ∀ d, (calls k).op ≠ .heartbeat id l d
  /-- Recovery ticks again and again, and clocks pass every moment `x`. -/
  recovery : ∀ n x, ∃ m, n ≤ m ∧ ∃ clock members, x ≤ clock ∧
    Members (Engine.upTo calls m).redis.inflight members ∧
    ∀ id ∈ findExpiredTasks clock members (Engine.upTo calls m).redis,
      ∃ k now base cap, m ≤ k ∧ x ≤ now ∧ calls k = recoveryCall base cap now id
  /-- So does promotion. -/
  promotion : ∀ n x, ∃ m, n ≤ m ∧ ∃ clock members, x ≤ clock ∧
    Members (Engine.upTo calls m).redis.scheduled members ∧
    ∀ id ∈ findDueTasks clock members (Engine.upTo calls m).redis,
      ∃ k now, m ≤ k ∧ x ≤ now ∧ calls k = promotionCall now id

/-- A renewal is reported by the heartbeat of a current lease. -/
theorem beat_of_mem {r : Redis Body} {now x : ℚ} {op : Op Body} {id l : String}
    (h : .beat id l x ∈ r.events now op) :
    r.leases id = some l ∧ ∃ d, op = .heartbeat id l d := by
  obtain ⟨d, rfl⟩ := Op.emits_source (Redis.emits_of_mem h)
  refine ⟨?_, d, rfl⟩
  by_contra hl
  simp [Redis.events, ForgeQueue.heartbeat, hl] at h

/-- Promotion takes what is due. -/
theorem promotionCall_scheduled {r : Redis Body} {id : String} {x now : ℚ}
    (hs : r.scheduled id = some x) (hx : x ≤ now) :
    (r.after now (promotionCall now id : Call Body).op).scheduled id = none := by
  simp [promotionCall, Redis.after, promoteTask, hs, not_lt.mpr hx]

end

variable {Body : Type} [TaskCodec Body] {calls : ℕ → Call Body}

/-- Recovery takes what has expired. -/
theorem recoveryCall_inflight {r : Redis Body} {id : String} {x now base cap : ℚ}
    (hs : r.inflight id = some x) (hx : x ≤ now) :
    (r.after now (recoveryCall base cap now id : Call Body).op).inflight id = none := by
  have hguard : requeueGuard now id "" r = none := by
    simp [requeueGuard, hs, not_lt.mpr hx]
  simp [recoveryCall, Redis.after, requeueOrDead, hguard,
    (retryOrBury_frame now base cap id (r.release id)).inflight]

/-- The first `n` calls are a finite run. -/
theorem Engine.upTo_run (h : ∀ n, CoreCall (Engine.upTo calls n) (calls n)) (n : ℕ) :
    ∃ cs, EngineRun CoreCall .init cs (Engine.upTo calls n) := by
  induction n with
  | zero => exact ⟨[], .nil⟩
  | succ n ih =>
    obtain ⟨cs, hrun⟩ := ih
    exact ⟨cs ++ [calls n], hrun.snoc (h n) rfl⟩

theorem Fair.refines (h : Fair calls) (n : ℕ) :
    Refines (Engine.upTo calls n).redis (Engine.upTo calls n).log := by
  obtain ⟨cs, hrun⟩ := Engine.upTo_run h.core n
  exact core_refines hrun

/-- Later calls take a job along a path. -/
theorem Fair.path (h : Fair calls) (id : String) {n m : ℕ} (hnm : n ≤ m) :
    (jobOf (Engine.upTo calls n).log id).Path (jobOf (Engine.upTo calls m).log id) := by
  refine keeps_from (s := Engine.upTo calls)
    (P := fun e => (jobOf (Engine.upTo calls n).log id).Path (jobOf e.log id)) .refl ?_ m hnm
  intro k _ hk
  exact hk.trans ((h.refines k).job_path (.cons (h.core k) rfl .nil) id)

/-- A job that never gets older is quiet from the moment on after which nobody renews its
lease. -/
theorem Fair.still (h : Fair calls) {id : String} {n : ℕ}
    (hborn : (jobOf (Engine.upTo calls n).log id).place ≠ .absent)
    (hage : ∀ m, n ≤ m → jobOf (Engine.upTo calls m).log id = jobOf (Engine.upTo calls n).log id)
    (hbeat : ∀ m, n ≤ m → ∀ l x, .beat id l x ∉
      (Engine.upTo calls m).redis.events (calls m).now (calls m).op) :
    ∀ m, n ≤ m → Still id (Engine.upTo calls n).redis (Engine.upTo calls n).log
      (Engine.upTo calls m).redis (Engine.upTo calls m).log := by
  refine keeps_from (s := Engine.upTo calls) (P := fun e => Still id
    (Engine.upTo calls n).redis (Engine.upTo calls n).log e.redis e.log) ⟨rfl, rfl, rfl⟩ ?_
  intro m hm hq
  have hp : (jobOf (Engine.upTo calls m).log id).place ≠ .absent := by
    rw [hage m hm]
    exact hborn
  rcases (h.refines m).exec_still (h.core m) hp (hbeat m hm) with hq' | hlt
  · exact hq.trans hq'
  · have h1 : jobOf (Engine.upTo calls (m + 1)).log id = jobOf (Engine.upTo calls m).log id :=
      (hage (m + 1) (by omega)).trans (hage m hm).symm
    exact absurd hlt (by
      show ¬ _ < (jobOf (Engine.upTo calls (m + 1)).log id).age
      rw [h1]
      exact lt_irrefl _)

/-- A scheduled task does not stay as it is: a promotion tick lists it and promotes it. -/
theorem Fair.waiting_moves (h : Fair calls) {id : String} {n : ℕ}
    (hp : (jobOf (Engine.upTo calls n).log id).place = .waiting) :
    ∃ m, n ≤ m ∧ jobOf (Engine.upTo calls m).log id ≠ jobOf (Engine.upTo calls n).log id := by
  by_contra! hage
  obtain ⟨x, hx⟩ := Option.isSome_iff_exists.mp (((h.refines n).holds id).scheduled.mpr hp)
  have hbeat : ∀ m, n ≤ m → ∀ l x, .beat id l x ∉
      (Engine.upTo calls m).redis.events (calls m).now (calls m).op := by
    intro m hm l x hb
    have hl := ((h.refines m).holds id).place_leased (beat_of_mem hb).1
    rw [hage m hm, hp] at hl
    cases hl
  have hq := h.still (by rw [hp]; simp) hage hbeat
  obtain ⟨m, hm, clock, members, hclock, hmem, htick⟩ := h.promotion n x
  have hlisted : id ∈ findDueTasks clock members (Engine.upTo calls m).redis :=
    (mem_rangeByScore hmem id).mpr ⟨x, (hq m hm).scheduled.trans hx, hclock⟩
  obtain ⟨k, now, hk, hnow, hcall⟩ := htick id hlisted
  -- the script finds the score it was listed for, and it is due
  have hs : (Engine.upTo calls k).redis.scheduled id = some x :=
    (hq k (by omega)).scheduled.trans hx
  have hs' : (Engine.upTo calls (k + 1)).redis.scheduled id = some x :=
    (hq (k + 1) (by omega)).scheduled.trans hx
  have hdel : (Engine.upTo calls (k + 1)).redis.scheduled id = none := by
    show ((Engine.upTo calls k).redis.after (calls k).now (calls k).op).scheduled id = none
    rw [hcall]
    exact promotionCall_scheduled hs hnow
  rw [hdel] at hs'
  cases hs'

/-- A leased task does not stay as it is: when its heartbeats have stopped, a recovery tick
lists it and takes it. -/
theorem Fair.leased_moves (h : Fair calls) {id l : String} {n : ℕ}
    (hp : (jobOf (Engine.upTo calls n).log id).place = .leased l) :
    ∃ m, n ≤ m ∧ jobOf (Engine.upTo calls m).log id ≠ jobOf (Engine.upTo calls n).log id := by
  by_contra! hage
  obtain ⟨n', hn', hstop⟩ := h.heartbeat n id l ((((h.refines n).holds id).lease l).mpr hp)
  have hp' : (jobOf (Engine.upTo calls n').log id).place = .leased l := by rw [hage n' hn', hp]
  obtain ⟨x, hx⟩ := Option.isSome_iff_exists.mp
    (((h.refines n').holds id).inflight.mpr ⟨l, hp'⟩)
  have hbeat : ∀ m, n' ≤ m → ∀ l' x, .beat id l' x ∉
      (Engine.upTo calls m).redis.events (calls m).now (calls m).op := by
    intro m hm l' x hb
    obtain ⟨hl, d, hop⟩ := beat_of_mem hb
    have hl' := ((h.refines m).holds id).place_leased hl
    rw [hage m (by omega), hp] at hl'
    obtain rfl : l = l' := by injection hl'
    exact hstop m hm d hop
  have hage' : ∀ m, n' ≤ m →
      jobOf (Engine.upTo calls m).log id = jobOf (Engine.upTo calls n').log id :=
    fun m hm => (hage m (by omega)).trans (hage n' hn').symm
  have hq := h.still (by rw [hp']; simp) hage' hbeat
  obtain ⟨m, hm, clock, members, hclock, hmem, htick⟩ := h.recovery n' x
  have hlisted : id ∈ findExpiredTasks clock members (Engine.upTo calls m).redis :=
    (mem_rangeByScore hmem id).mpr ⟨x, (hq m hm).inflight.trans hx, hclock⟩
  obtain ⟨k, now, base, cap, hk, hnow, hcall⟩ := htick id hlisted
  have hs : (Engine.upTo calls k).redis.inflight id = some x :=
    (hq k (by omega)).inflight.trans hx
  have hs' : (Engine.upTo calls (k + 1)).redis.inflight id = some x :=
    (hq (k + 1) (by omega)).inflight.trans hx
  have hdel : (Engine.upTo calls (k + 1)).redis.inflight id = none := by
    show ((Engine.upTo calls k).redis.after (calls k).now (calls k).op).inflight id = none
    rw [hcall]
    exact recoveryCall_inflight hs hnow
  rw [hdel] at hs'
  cases hs'

/-- A ready task does not stay as it is. -/
theorem Fair.ready_moves (h : Fair calls) {id : String} {n : ℕ}
    (hp : (jobOf (Engine.upTo calls n).log id).place = .ready) :
    ∃ m, n ≤ m ∧ jobOf (Engine.upTo calls m).log id ≠ jobOf (Engine.upTo calls n).log id := by
  have hcount := ((h.refines n).holds id).ready
  rw [if_pos hp] at hcount
  have hmem : id ∈ (Engine.upTo calls n).redis.immediate :=
    List.count_pos_iff.mp (by omega)
  obtain ⟨m, hm, hnot⟩ := h.claim n id hmem
  refine ⟨m, hm, fun heq => hnot ?_⟩
  have hcount' := ((h.refines m).holds id).ready
  rw [heq, if_pos hp] at hcount'
  exact List.count_pos_iff.mp (by omega)

/-- **Progress.** From every moment on, a task that exists comes to its end or fails any
number of times. -/
theorem Fair.over_or_fails (h : Fair calls) {id : String} {n : ℕ}
    (hborn : (jobOf (Engine.upTo calls n).log id).place ≠ .absent) (N : ℕ) :
    ∃ m, n ≤ m ∧ ((jobOf (Engine.upTo calls m).log id).Over ∨
      N ≤ (jobOf (Engine.upTo calls m).log id).failures) := by
  refine eventually_of_rank (s := Engine.upTo calls)
    (fun e => (jobOf e.log id).Over ∨ N ≤ (jobOf e.log id).failures)
    (fun e => 3 * N + 1 - (jobOf e.log id).age) ?_
  intro k hk hgoal
  rw [not_or] at hgoal
  have hpath := h.path id hk
  have hp : (jobOf (Engine.upTo calls k).log id).place ≠ .absent := by
    intro hab
    rw [Job.Path.eq_of_absent hpath hab] at hab
    exact hborn hab
  have hmoves : ∃ m, k ≤ m ∧
      jobOf (Engine.upTo calls m).log id ≠ jobOf (Engine.upTo calls k).log id := by
    cases hplace : (jobOf (Engine.upTo calls k).log id).place with
    | absent => exact absurd hplace hp
    | ready => exact h.ready_moves hplace
    | leased l => exact h.leased_moves hplace
    | waiting => exact h.waiting_moves hplace
    | buried => exact absurd (.inr hplace) hgoal.1
    | finished => exact absurd (.inl hplace) hgoal.1
  obtain ⟨m, hm, hne⟩ := hmoves
  have hlt := (Job.Path.age_lt (h.path id hm) hp).resolve_left hne
  have hle : (jobOf (Engine.upTo calls k).log id).age ≤ 3 * N := by
    by_contra hgt
    exact hgoal.2 (Job.failures_of_age (by omega))
  exact ⟨m, hm, .inr (by omega)⟩

/-- What a task that is over looks like in Redis and in the history. -/
def AtRest (e : Engine Body) (id : String) : Prop :=
  ¬ e.redis.Live id ∧ (wasAcked e.log id = true ∨ e.redis.dead.countP (deadOf id) = 1)

theorem Refines.atRest {e : Engine Body} (h : Refines e.redis e.log) {id : String}
    (hover : (jobOf e.log id).Over) : AtRest e id := by
  have hh := h.holds id
  refine ⟨?_, ?_⟩
  · rintro (hm | hi | hs)
    · rcases hover with hp | hp <;> simp [hh.place_ready hm] at hp
    · obtain ⟨l, hl⟩ := hh.inflight.mp hi
      rcases hover with hp | hp <;> simp [hl] at hp
    · rcases hover with hp | hp <;> simp [hh.scheduled.mp hs] at hp
  · rcases hover with hp | hp
    · exact .inl ((wasAcked_iff _ _).mpr ((h.acked id).mp hp))
    · exact .inr (by rw [hh.dead, if_pos hp])

/-- **No task is stuck.** In every fair infinite run of the core engine, a task with a
positive retry budget is, from some moment on and for ever, acknowledged or once in the
dead list and in no hot structure. A task whose budget is not positive is acknowledged or
claimed any number of times. -/
theorem every_task_settles (h : Fair calls) {a : RouteArgs} {n : ℕ}
    (henq : .enqueued a ∈ (Engine.upTo calls n).log) :
    (0 < a.maxRetries.toInt → ∃ m, n ≤ m ∧ ∀ k, m ≤ k → AtRest (Engine.upTo calls k) a.id) ∧
    (a.maxRetries.toInt ≤ 0 → ∀ N : ℕ, ∃ m, n ≤ m ∧
      (wasAcked (Engine.upTo calls m).log a.id = true ∨
        (N : ℤ) ≤ (Engine.upTo calls m).claims a.id)) := by
  have hborn : (jobOf (Engine.upTo calls n).log a.id).place ≠ .absent :=
    ((h.refines n).born a.id).mpr ⟨a, henq, rfl⟩
  have hbudget : ∀ m, n ≤ m →
      (jobOf (Engine.upTo calls m).log a.id).budget = a.maxRetries.toInt := by
    intro m hm
    obtain ⟨cs, hrun⟩ := Engine.upTo_run h.core n
    rw [Job.Path.budget (h.path a.id hm) hborn, (core_counted hrun).2.budget a henq]
  constructor
  · intro hpos
    obtain ⟨m, hm, hgoal⟩ := h.over_or_fails hborn a.maxRetries.toInt.toNat
    have hok := ((h.refines m).holds a.id).ok
    have hover : (jobOf (Engine.upTo calls m).log a.id).Over := by
      rcases hgoal with hover | hfail
      · exact hover
      · -- only a buried job has used up its budget
        refine .inr (by_contra fun hne => ?_)
        have := hok.within hne (by rw [hbudget m hm]; exact hpos)
        rw [hbudget m hm] at this
        omega
    refine ⟨m, hm, fun k hk => (h.refines k).atRest ?_⟩
    rw [hover.path_eq (h.path a.id hk)]
    exact hover
  · intro hneg N
    obtain ⟨m, hm, hgoal⟩ := h.over_or_fails hborn N
    have hok := ((h.refines m).holds a.id).ok
    refine ⟨m, hm, ?_⟩
    rcases hgoal with (hfin | hbur) | hfail
    · exact .inl ((wasAcked_iff _ _).mpr (((h.refines m).acked a.id).mp hfin))
    · have := (hok.buried hbur).1
      rw [hbudget m hm] at this
      omega
    · right
      obtain ⟨cs, hrun⟩ := Engine.upTo_run h.core m
      have hgrants := (core_counted hrun).2.grants a.id
      have := hok.grants
      unfold Engine.claims
      omega

/-! A task that loses its first lease and is acknowledged under the second. -/

/-- Enqueue, claim, recovery, promotion, claim, acknowledgement; then the promotion loop
asks in vain, for ever. -/
def secondTry : ℕ → Call JsonBody
  | 0 => ⟨0, .routeBody sampleArgs⟩
  | 1 => ⟨0, .routePush sampleArgs 0⟩
  | 2 => ⟨1, .claimBatch ["L1"] 31⟩
  | 3 => recoveryCall 1 60 40 "job"
  | 4 => promotionCall 50 "job"
  | 5 => ⟨51, .claimBatch ["L2"] 81⟩
  | 6 => ⟨60, .ackBatch [("job", "L2")]⟩
  | _ => promotionCall 100 "job"

theorem secondTry_core (n : ℕ) : CoreCall (Engine.upTo secondTry n) (secondTry n) := by
  match n with
  | 0 =>
    intro a' ha'
    cases ha'
  | 1 =>
    refine ⟨List.mem_cons_self, ?_⟩
    intro a' ha'
    simp [Engine.upTo, secondTry, Engine.exec, Engine.init, Redis.events] at ha'
  | 2 | 3 | 4 | 5 | 6 | _ + 7 => trivial

theorem secondTry_log :
    (Engine.upTo secondTry 7).log = [.acked "job" "L2", .claimed "job" "L2" 81,
      .promoted "job", .reclaimed "job" (some "L1") (some .scheduled),
      .claimed "job" "L1" 31, .enqueued sampleArgs, .bodySet sampleArgs] := by
  decide +kernel

/-- Nothing is live after the acknowledgement. -/
theorem secondTry_idle (id : String) : ¬ (Engine.upTo secondTry 7).redis.Live id := by
  obtain ⟨cs, hrun⟩ := Engine.upTo_run secondTry_core 7
  have hh := (core_refines hrun).holds id
  rw [secondTry_log] at hh
  have hplace : ∀ p : Place String, p = .ready ∨ (∃ l, p = .leased l) ∨ p = .waiting →
      (jobOf (Engine.upTo secondTry 7).log id).place ≠ p := by
    rw [secondTry_log]
    by_cases hid : "job" = id
    · rintro p (rfl | ⟨l, rfl⟩ | rfl) <;> simp [jobOf, advance, hid, sampleArgs, Job.finish]
    · rintro p (rfl | ⟨l, rfl⟩ | rfl) <;> simp [jobOf, advance, hid, sampleArgs, Job.unborn]
  rw [secondTry_log] at hplace
  rintro (hm | hi | hs)
  · exact hplace _ (.inl rfl) (hh.place_ready hm)
  · obtain ⟨l, hl⟩ := hh.inflight.mp hi
    exact hplace _ (.inr (.inl ⟨l, rfl⟩)) hl
  · exact hplace _ (.inr (.inr rfl)) (hh.scheduled.mp hs)

/-- Nothing comes back either. -/
theorem secondTry_after (n : ℕ) : Engine.upTo secondTry (n + 7) = Engine.upTo secondTry 7 := by
  induction n with
  | zero => rfl
  | succ n ih =>
    have hs : (Engine.upTo secondTry 7).redis.scheduled "job" = none := by
      by_contra h
      exact secondTry_idle "job" (.inr (.inr (Option.isSome_iff_ne_none.mpr h)))
    show (Engine.upTo secondTry (n + 7)).exec (promotionCall 100 "job") = _
    rw [ih]
    simp [Engine.exec, promotionCall, Redis.after, Redis.events, promoteTask, hs]

theorem secondTry_fair : Fair secondTry where
  core := secondTry_core
  claim n id _ := by
    refine ⟨n + 7, by omega, ?_⟩
    rw [secondTry_after]
    exact fun hm => secondTry_idle id (.inl hm)
  heartbeat n id l _ := by
    refine ⟨n, le_refl n, ?_⟩
    intro k _ d
    match k with
    | 0 | 1 | 2 | 3 | 4 | 5 | 6 | _ + 7 => simp [secondTry, recoveryCall, promotionCall]
  recovery n x := by
    refine ⟨n + 7, by omega, x, [], le_refl x, ⟨List.nodup_nil, ?_⟩, ?_⟩
    · intro id
      rw [secondTry_after]
      simpa using fun hi => secondTry_idle id (.inr (.inl hi))
    · simp [findExpiredTasks, rangeByScore]
  promotion n x := by
    refine ⟨n + 7, by omega, x, [], le_refl x, ⟨List.nodup_nil, ?_⟩, ?_⟩
    · intro id
      rw [secondTry_after]
      simpa using fun hs => secondTry_idle id (.inr (.inr hs))
    · simp [findDueTasks, rangeByScore]

/-- The task settles, after its second claim. -/
theorem every_task_settles_second_try :
    ∃ m, 2 ≤ m ∧ ∀ k, m ≤ k → AtRest (Engine.upTo secondTry k) "job" := by
  have henq : .enqueued sampleArgs ∈ (Engine.upTo secondTry 2).log := List.mem_cons_self
  exact (every_task_settles secondTry_fair henq).1 (by decide)

end ForgeQueue
