import ForgeQueue.Logic.Requests
import ForgeQueue.Model.JsonBody

/-!
# What a purge drops

`PurgeQueue` and `PurgeDLQ` read a list, and then clear the list and the bodies of the
tasks it named in a transaction. The transaction works from the list that was read: a
task that joined since loses its entry and keeps its body, and one that left for another
structure loses its body there.
-/

namespace ForgeQueue

open Base

section

variable {Body : Type} [BodyCodec Body] [DecidableEq Body]

omit [DecidableEq Body] in
/-- An entry names one task. -/
theorem deadOf_inj {b : Body} {id id' : String} (h : deadOf id b = true)
    (h' : deadOf id' b = true) : id = id' := by
  have hid := of_decide_eq_true h
  rw [of_decide_eq_true h'] at hid
  exact (Option.some.inj hid).symm

/-- A purge: the list it reads, the tasks an entry names, the structures whose tasks must
keep their bodies, and its request before the read, before the transaction and after it. -/
structure Purge (Body : Type) [BodyCodec Body] [DecidableEq Body] (ι : Type) where
  entries : Redis Body → List ι
  names : String → ι → Bool
  hot : Redis Body → String → Prop
  start : Request Body
  holding : List ι → Request Body
  finished : ℕ → Request Body
  start_step : ∀ r, start.step r = (r, holding (entries r))
  holding_step : ∀ es r, ((holding es).step r).2 = finished es.length
  emptied : ∀ es r, entries ((holding es).step r).1 = []
  task : ∀ es r id, ((holding es).step r).1.task id =
    if es.any (names id) then none else r.task id
  holding_open : ∀ es, (holding es).response = none
  response : ∀ n, (finished n).response = some (.purged n)
  holding_ne_start : ∀ es, holding es ≠ start
  holding_inj : ∀ es es', holding es = holding es' → es = es'

/-- `PurgeQueue`: tasks in flight and scheduled tasks must keep their bodies. -/
def queuePurge : Purge Body String where
  entries r := r.immediate
  names id e := decide (e = id)
  hot r id := (r.inflight id).isSome ∨ (r.scheduled id).isSome
  start := .purgeQueue .range
  holding ids := .purgeQueue (.commit ids)
  finished n := .purgeQueue (.done n)
  start_step _ := rfl
  holding_step _ _ := rfl
  emptied _ _ := rfl
  task ids r id := by
    show (if id ∈ ids then none else r.task id) = _
    simp [List.any_eq_true]
  holding_open _ := rfl
  response _ := rfl
  holding_ne_start _ := nofun
  holding_inj _ _ h := by
    injection h with h
    injection h

/-- `PurgeDLQ`: live tasks must keep their bodies. -/
def dlqPurge : Purge Body Body where
  entries r := r.dead
  names := deadOf
  hot r id := r.Live id
  start := .purgeDLQ .range
  holding bodies := .purgeDLQ (.commit bodies)
  finished n := .purgeDLQ (.done n)
  start_step _ := rfl
  holding_step _ _ := rfl
  emptied _ _ := rfl
  task _ _ _ := rfl
  holding_open _ := rfl
  response _ := rfl
  holding_ne_start _ := nofun
  holding_inj _ _ h := by
    injection h with h
    injection h

variable {ι : Type}

/-- The transaction took the store from `r` to `r'` and the purge reported `n`: every
removed entry lost the body it names, no task of the other structures did, and the count
is right. -/
structure Purge.Exact (p : Purge Body ι) (r r' : Redis Body) (n : ℕ) : Prop where
  emptied : p.entries r' = []
  bodies : ∀ e ∈ p.entries r, ∃ id, p.names id e = true ∧ r'.task id = none
  spared : ∀ id, p.hot r id → r'.task id = r.task id
  count : n = (p.entries r).length

/-- The list that was read still is the list, each of its entries names a task, and none of
these tasks has a body and is in one of the other structures. -/
structure Purge.Accurate (p : Purge Body ι) (es : List ι) (r : Redis Body) : Prop where
  current : p.entries r = es
  named : ∀ e ∈ es, ∃ id, p.names id e = true
  cold : ∀ e ∈ es, ∀ id, p.names id e = true → p.hot r id → r.task id = none

/-- The condition on a run: the list is accurate when request `k` reads it, and every step
of another party before the transaction leaves it accurate. -/
def Purge.Undisturbed (p : Purge Body ι) (k : ℕ) (d : Desk Body) (act : DeskAct Body) : Prop :=
  (d.requests k = some p.start → act = .next k → p.Accurate (p.entries d.redis) d.redis) ∧
  ∀ es d', d.requests k = some (p.holding es) → act ≠ .next k → d.step act = some d' →
    p.Accurate es d'.redis

/-- Where the request stands in an undisturbed run. -/
def Purge.Stage (p : Purge Body ι) (k : ℕ) (d : Desk Body) : Prop :=
  d.requests k = some p.start ∨
  (∃ es, d.requests k = some (p.holding es) ∧ p.Accurate es d.redis) ∨
  ∃ n, d.requests k = some (p.finished n)

/-- **Transaction.** From an accurate list the purge is exact. -/
theorem Purge.Accurate.exact {p : Purge Body ι} {es : List ι} {r : Redis Body}
    (h : p.Accurate es r) : p.Exact r ((p.holding es).step r).1 es.length where
  emptied := p.emptied es r
  bodies e he := by
    rw [h.current] at he
    obtain ⟨id, hid⟩ := h.named e he
    refine ⟨id, hid, ?_⟩
    rw [p.task, if_pos (List.any_eq_true.mpr ⟨e, he, hid⟩)]
  spared id hhot := by
    rw [p.task]
    split
    · rename_i hany
      obtain ⟨e, he, hid⟩ := List.any_eq_true.mp hany
      exact (h.cold e he id hid hhot).symm
    · rfl
  count := by rw [h.current]

/-- **Step.** -/
theorem Purge.Stage.step {p : Purge Body ι} {k : ℕ} {d d' : Desk Body} {act : DeskAct Body}
    (h : p.Stage k d) (hok : p.Undisturbed k d act) (hst : d.step act = some d') :
    p.Stage k d' := by
  by_cases hown : act = .next k
  · subst hown
    rcases h with hq | ⟨es, hq, hacc⟩ | ⟨n, hq⟩
    · obtain ⟨-, hredis, hreq⟩ := Desk.step_own hq hst
      rw [p.start_step] at hredis hreq
      refine .inr (.inl ⟨_, hreq, ?_⟩)
      rw [hredis]
      exact hok.1 hq rfl
    · obtain ⟨-, -, hreq⟩ := Desk.step_own hq hst
      rw [p.holding_step] at hreq
      exact .inr (.inr ⟨_, hreq⟩)
    · obtain ⟨hopen, -, -⟩ := Desk.step_own hq hst
      rw [p.response] at hopen
      cases hopen
  · rcases h with hq | ⟨es, hq, -⟩ | ⟨n, hq⟩
    · exact .inl (Desk.step_other hq hown hst)
    · exact .inr (.inl ⟨es, Desk.step_other hq hown hst, hok.2 es d' hq hown hst⟩)
    · exact .inr (.inr ⟨n, Desk.step_other hq hown hst⟩)

/-- **Run.** In an undisturbed run the transaction of the purge, whenever it comes, is
exact and reports what it removed. -/
theorem Purge.exact_of_run {p : Purge Body ι} {k : ℕ} {d s : Desk Body}
    {acts : List (DeskAct Body)} {es : List ι} (hstart : d.requests k = some p.start)
    (hrun : DeskRun (p.Undisturbed k) d acts s) (hpc : s.requests k = some (p.holding es)) :
    ∃ s' n, s.step (.next k) = some s' ∧
      (s'.requests k).bind Request.response = some (.purged n) ∧
      p.Exact s.redis s'.redis n := by
  have hstage : p.Stage k s :=
    hrun.invariant (fun s => p.Stage k s)
      (fun _ _ _ hok hst h => h.step hok hst) (.inl hstart)
  have hacc : p.Accurate es s.redis := by
    rcases hstage with hq | ⟨es', hq, hacc⟩ | ⟨n, hq⟩
    · exact absurd (Option.some.inj (hpc.symm.trans hq)) (p.holding_ne_start es)
    · obtain rfl := p.holding_inj _ _ (Option.some.inj (hpc.symm.trans hq))
      exact hacc
    · -- a finished request has answered
      have hopen := p.holding_open es
      rw [Option.some.inj (hpc.symm.trans hq), p.response] at hopen
      cases hopen
  refine ⟨⟨((p.holding es).step s.redis).1, put s.requests k (p.finished es.length)⟩, es.length,
    ?_, ?_, hacc.exact⟩
  · simp [Desk.step, hpc, p.holding_open, p.holding_step]
  · show (put s.requests k (p.finished es.length) k).bind Request.response = _
    rw [put_self]
    exact p.response _

/-- In every state and every run in which other parties leave the ready list alone between
`LRANGE` and the transaction, and put no listed task that has a body in flight or into the
scheduled set, `PurgeQueue` drops exactly the pending tasks. -/
theorem purgeQueue_exact_when_undisturbed {k : ℕ} {d s : Desk Body}
    {acts : List (DeskAct Body)} {ids : List String}
    (hstart : d.requests k = some (.purgeQueue .range))
    (hrun : DeskRun (queuePurge.Undisturbed k) d acts s)
    (hpc : s.requests k = some (.purgeQueue (.commit ids))) :
    ∃ s' n, s.step (.next k) = some s' ∧
      (s'.requests k).bind Request.response = some (.purged n) ∧
      (∀ id ∈ s.redis.immediate, id ∉ s'.redis.immediate ∧ s'.redis.task id = none) ∧
      (∀ id, (s.redis.inflight id).isSome ∨ (s.redis.scheduled id).isSome →
        s'.redis.task id = s.redis.task id) ∧
      n = s.redis.immediate.length := by
  obtain ⟨s', n, hst, hresp, hexact⟩ := queuePurge.exact_of_run hstart hrun hpc
  refine ⟨s', n, hst, hresp, ?_, hexact.spared, hexact.count⟩
  intro id hid
  obtain ⟨id', hname, hnone⟩ := hexact.bodies id hid
  obtain rfl : id = id' := of_decide_eq_true hname
  have hempty : s'.redis.immediate = [] := hexact.emptied
  refine ⟨?_, hnone⟩
  rw [hempty]
  exact List.not_mem_nil

/-- In every state and every run in which other parties leave the dead list alone between
`LRANGE` and the transaction, every listed entry decodes, and no listed task that has a
body is live, `PurgeDLQ` drops exactly the dead tasks. -/
theorem purgeDLQ_exact_when_undisturbed {k : ℕ} {d s : Desk Body}
    {acts : List (DeskAct Body)} {bodies : List Body}
    (hstart : d.requests k = some (.purgeDLQ .range))
    (hrun : DeskRun (dlqPurge.Undisturbed k) d acts s)
    (hpc : s.requests k = some (.purgeDLQ (.commit bodies))) :
    ∃ s' n, s.step (.next k) = some s' ∧
      (s'.requests k).bind Request.response = some (.purged n) ∧
      (∀ id, s.redis.Live id → s'.redis.task id = s.redis.task id) ∧
      (∀ b ∈ s.redis.dead, b ∉ s'.redis.dead ∧
        ∃ id, deadOf id b = true ∧ s'.redis.task id = none) ∧
      n = s.redis.dead.length := by
  obtain ⟨s', n, hst, hresp, hexact⟩ := dlqPurge.exact_of_run hstart hrun hpc
  refine ⟨s', n, hst, hresp, hexact.spared, ?_, hexact.count⟩
  intro b hb
  have hempty : s'.redis.dead = [] := hexact.emptied
  refine ⟨?_, hexact.bodies b hb⟩
  rw [hempty]
  exact List.not_mem_nil

end

/-! ## A quiet purge, and disturbed ones -/

/-- Another task for the evaluations. -/
def lateArgs : RouteArgs := { sampleArgs with id := "late" }

/-- The store after the calls, and a first request. -/
def deskAfter (calls : List (Call JsonBody)) (q : Request JsonBody) : Desk JsonBody :=
  ⟨(Engine.init.execAll calls).redis, put nothing 0 q⟩

/-- The job is pending. -/
def pendingCalls : List (Call JsonBody) :=
  [⟨0, .routeBody sampleArgs⟩, ⟨0, .routePush sampleArgs 0⟩]

/-- The body of a later task is written in the gap; its queue entry comes after the
purge. -/
theorem purgeQueue_exact_when_undisturbed_body_written :
    ∃ s s' : Desk JsonBody,
      DeskRun (queuePurge.Undisturbed 0) (deskAfter pendingCalls (.purgeQueue .range))
        [.next 0, .engine ⟨1, .routeBody lateArgs⟩] s ∧
      s.step (.next 0) = some s' ∧ s'.redis.task "job" = none ∧
      (s'.requests 0).bind Request.response = some (.purged 1) := by
  have hcold : ∀ r : Redis JsonBody, r.immediate = ["job"] → r.inflight "job" = none →
      r.scheduled "job" = none → queuePurge.Accurate ["job"] r := by
    intro r hready hinflight hscheduled
    refine ⟨hready, fun e _ => ⟨e, decide_eq_true rfl⟩, fun e he id hname hhot => ?_⟩
    obtain rfl := List.mem_singleton.mp he
    obtain rfl : "job" = id := of_decide_eq_true hname
    rcases hhot with h | h
    · rw [hinflight] at h
      cases h
    · rw [hscheduled] at h
      cases h
  have hrun : ∃ s : Desk JsonBody,
      DeskRun (queuePurge.Undisturbed 0) (deskAfter pendingCalls (.purgeQueue .range))
        [.next 0, .engine ⟨1, .routeBody lateArgs⟩] s ∧
      s.requests 0 = some (.purgeQueue (.commit ["job"])) ∧ s.redis.immediate = ["job"] := by
    refine ⟨_, .cons ⟨fun _ _ => ?_, fun _ _ _ h => absurd rfl h⟩ rfl
      (.cons ⟨nofun, ?_⟩ rfl .nil), rfl, rfl⟩
    · exact hcold _ rfl rfl rfl
    · rintro es _ ⟨⟩ - ⟨⟩
      exact hcold _ rfl rfl rfl
  obtain ⟨s, hrun, hpc, hready⟩ := hrun
  obtain ⟨s', n, hst, hresp, hdropped, -, rfl⟩ :=
    purgeQueue_exact_when_undisturbed (by exact rfl) hrun hpc
  rw [hready] at hresp
  exact ⟨s, s', hrun, hst, (hdropped "job" (by rw [hready]; exact List.mem_cons_self)).2, hresp⟩

/-- A task is enqueued between `LRANGE` and the transaction. -/
def enqueuedInGap : List (DeskAct JsonBody) :=
  [.engine ⟨0, .routeBody sampleArgs⟩, .engine ⟨0, .routePush sampleArgs 0⟩,
    .receive 0 (.action .purgeQueue), .next 0,
    .engine ⟨1, .routeBody lateArgs⟩, .engine ⟨1, .routePush lateArgs 1⟩]

/-- The pending job is claimed between `LRANGE` and the transaction. -/
def claimedInGap : List (DeskAct JsonBody) :=
  [.engine ⟨0, .routeBody sampleArgs⟩, .engine ⟨0, .routePush sampleArgs 0⟩,
    .receive 0 (.action .purgeQueue), .next 0, .engine ⟨1, .claimBatch ["L1"] 31⟩]

/-- **Not exact.** The task enqueued in the gap loses its queue entry and keeps its body,
and it is not counted; the task claimed in the gap loses its body while it runs. -/
theorem purgeQueue_drops_others :
    (∃ s s' : Desk JsonBody, DeskRun (fun _ _ => True) Desk.init enqueuedInGap s ∧
      s.step (.next 0) = some s' ∧ s.redis.immediate = ["late", "job"] ∧
      s'.redis.immediate = [] ∧ (s'.redis.task "late").isSome = true ∧
      (s'.requests 0).bind Request.response = some (.purged 1)) ∧
    ∃ s s' : Desk JsonBody, DeskRun (fun _ _ => True) Desk.init claimedInGap s ∧
      s.step (.next 0) = some s' ∧ (s.redis.inflight "job").isSome = true ∧
      (s.redis.task "job").isSome = true ∧ s'.redis.task "job" = none ∧
      (s'.requests 0).bind Request.response = some (.purged 1) := by
  refine ⟨?_, ?_⟩
  · exact ⟨_, _, .cons trivial rfl (.cons trivial rfl (.cons trivial rfl (.cons trivial rfl
      (.cons trivial rfl (.cons trivial rfl .nil))))), rfl, rfl, rfl, rfl, rfl⟩
  · exact ⟨_, _, .cons trivial rfl (.cons trivial rfl (.cons trivial rfl (.cons trivial rfl
      (.cons trivial rfl .nil)))), rfl, rfl, rfl, rfl, rfl⟩

/-! ## The dead list -/

/-- A task with a single attempt. -/
def singleArgs (id : String) : RouteArgs := { sampleArgs with id := id, maxRetries := 1 }

/-- A task is enqueued and claimed. -/
def leaseCalls (id leaseID : String) : List (Call JsonBody) :=
  [⟨0, .routeBody (singleArgs id)⟩, ⟨0, .routePush (singleArgs id) 0⟩,
    ⟨1, .claimBatch [leaseID] 31⟩]

/-- The job has failed its only attempt. -/
def buryCalls : List (Call JsonBody) :=
  leaseCalls "job" "L1" ++ [⟨2, .requeueOrDead "job" "L1" 1 60⟩]

/-- A later task is enqueued in the gap; it never was dead. -/
theorem purgeDLQ_exact_when_undisturbed_enqueue :
    ∃ s s' : Desk JsonBody,
      DeskRun (dlqPurge.Undisturbed 0) (deskAfter buryCalls (.purgeDLQ .range))
        [.next 0, .engine ⟨3, .routeBody lateArgs⟩, .engine ⟨3, .routePush lateArgs 3⟩] s ∧
      s.step (.next 0) = some s' ∧ s'.redis.task "job" = none ∧
      (s'.requests 0).bind Request.response = some (.purged 1) := by
  obtain ⟨b, hdead, hjob⟩ : ∃ b : JsonBody,
      (Engine.init.execAll buryCalls).redis.dead = [b] ∧ deadOf "job" b = true := by
    have hentry : (Engine.init.execAll buryCalls).redis.dead.map (deadOf "job") = [true] := by
      decide +kernel
    obtain ⟨b, hb, hjob⟩ := List.map_eq_singleton_iff.mp hentry
    exact ⟨b, hb, hjob⟩
  have hcold : ∀ r : Redis JsonBody, r.dead = [b] → ¬ r.Live "job" → dlqPurge.Accurate [b] r := by
    intro r hr hlive
    refine ⟨hr, fun e he => ⟨"job", ?_⟩, fun e he id hname hhot => ?_⟩
    · rw [List.mem_singleton.mp he]
      exact hjob
    · rw [List.mem_singleton.mp he] at hname
      rw [deadOf_inj hname hjob] at hhot
      exact absurd hhot hlive
  have hrun : ∃ s : Desk JsonBody,
      DeskRun (dlqPurge.Undisturbed 0) (deskAfter buryCalls (.purgeDLQ .range))
        [.next 0, .engine ⟨3, .routeBody lateArgs⟩, .engine ⟨3, .routePush lateArgs 3⟩] s ∧
      s.requests 0 = some (.purgeDLQ (.commit (Engine.init.execAll buryCalls).redis.dead)) ∧
      s.redis.dead = (Engine.init.execAll buryCalls).redis.dead := by
    refine ⟨_, .cons ⟨fun _ _ => ?_, fun _ _ _ h => absurd rfl h⟩ rfl
      (.cons ⟨nofun, ?_⟩ rfl (.cons ⟨nofun, ?_⟩ rfl .nil)), rfl, rfl⟩
    · have h := hcold (Engine.init.execAll buryCalls).redis hdead (by decide +kernel)
      rw [← hdead] at h
      exact h
    · rintro es _ ⟨⟩ - ⟨⟩
      have h := hcold ((Engine.init.execAll buryCalls).redis.after 3 (.routeBody lateArgs)) hdead
        (by decide +kernel)
      rw [← hdead] at h
      exact h
    · rintro es _ ⟨⟩ - ⟨⟩
      have h := hcold (((Engine.init.execAll buryCalls).redis.after 3 (.routeBody lateArgs)).after 3
        (.routePush lateArgs 3)) hdead (by decide +kernel)
      rw [← hdead] at h
      exact h
  obtain ⟨s, hrun, hpc, hs⟩ := hrun
  obtain ⟨s', n, hst, hresp, -, hdropped, rfl⟩ :=
    purgeDLQ_exact_when_undisturbed (by exact rfl) hrun hpc
  rw [hdead] at hs
  rw [hs] at hresp
  obtain ⟨-, id, hname, hnone⟩ := hdropped b (by rw [hs]; exact List.mem_cons_self)
  rw [deadOf_inj hname hjob] at hnone
  exact ⟨s, s', hrun, hst, hnone, hresp⟩

/-- Another task is dead-lettered between `LRANGE` and the transaction. -/
def buriedInGap : List (DeskAct JsonBody) :=
  (buryCalls ++ leaseCalls "late" "L2").map .engine ++
    [.receive 0 (.action .purgeDLQ), .next 0, .engine ⟨3, .requeueOrDead "late" "L2" 1 60⟩]

/-- The dead job is retried between `LRANGE` and the transaction. -/
def retriedInGap : List (DeskAct JsonBody) :=
  buryCalls.map .engine ++
    [.receive 0 (.action .purgeDLQ), .next 0, .receive 1 (.action (.retryDLQ "job")),
      .next 1, .next 1, .next 1, .next 1, .next 1, .next 1]

/-- **Not exact.** The entry of the task that died in the gap is removed, its body stays
and it is not counted; the task retried in the gap is pending and loses its body. -/
theorem purgeDLQ_drops_others :
    (∃ s s' : Desk JsonBody, DeskRun (fun _ _ => True) Desk.init buriedInGap s ∧
      s.step (.next 0) = some s' ∧ s.redis.dead.length = 2 ∧ s'.redis.dead = [] ∧
      (s.redis.dead.any (deadOf "late")) = true ∧ (s'.redis.task "late").isSome = true ∧
      (s'.requests 0).bind Request.response = some (.purged 1)) ∧
    ∃ s s' : Desk JsonBody, DeskRun (fun _ _ => True) Desk.init retriedInGap s ∧
      s.step (.next 0) = some s' ∧ s.redis.immediate = ["job"] ∧
      (s.redis.task "job").isSome = true ∧ s'.redis.task "job" = none ∧
      (s'.requests 0).bind Request.response = some (.purged 1) := by
  have reached : ∀ {acts : List (DeskAct JsonBody)} {P : Desk JsonBody → Desk JsonBody → Prop}
      [∀ s s', Decidable (P s s')],
      (runList Desk.step (Desk.init : Desk JsonBody) acts).any
        (fun s => (s.step (.next 0)).any fun s' => decide (P s s')) = true →
      ∃ s s' : Desk JsonBody, DeskRun (fun _ _ => True) Desk.init acts s ∧
        s.step (.next 0) = some s' ∧ P s s' := by
    intro acts P _ h
    obtain ⟨s, hrun, hp⟩ := Run.exists_of_any (fun _ _ _ => trivial) h
    obtain ⟨s', hst, hp'⟩ := (Option.any_eq_true _ _).mp hp
    exact ⟨s, s', hrun, hst, of_decide_eq_true hp'⟩
  refine ⟨reached ?_, reached ?_⟩
  · decide +kernel
  · decide +kernel

end ForgeQueue
