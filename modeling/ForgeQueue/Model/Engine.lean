import ForgeQueue.Base.Double
import ForgeQueue.Base.Run
import ForgeQueue.Model.Redis
import Mathlib.Data.Rat.Floor

/-!
# The engine: one Redis server and everything that is sent to it

`Op` lists the atomic units the components send to Redis, with the arguments
they send. `Redis.after` is the server's answer to one of them. An `Engine` is
the server together with the history of what happened in it: `Event`s are the
changes that took effect (a rejected call is no event), newest first. The history
is read by statements only, never by the code.
-/

namespace ForgeQueue

open Base

/-- The arguments of one `RouteTask` call. Every call has its own fresh id. -/
structure RouteArgs where
  id : String
  taskType : String
  payload : Option (List UInt8)
  maxRetries : Int32
  delaySeconds : Int64
  deriving DecidableEq

/-- A task with two attempts, for evaluations. -/
def sampleArgs : RouteArgs where
  id := "job"
  taskType := "email"
  payload := some [0x7b, 0x7d]
  maxRetries := 2
  delaySeconds := 0

/-- The record `RouteTask` serializes. -/
def routeData (a : RouteArgs) : ModelTask where
  id := a.id
  taskType := a.taskType
  payload := a.payload
  maxRetries := a.maxRetries.toInt
  attempts := 0

/-- `targetTime`: whole seconds of the gateway's clock plus the delay, in 64 bits. -/
def targetTime (clock : ℚ) (a : RouteArgs) : Int64 := .ofInt clock.floor + a.delaySeconds

/-- The score `float64(targetTime)`; `none` is an immediate enqueue. -/
def routeTarget (clock : ℚ) (a : RouteArgs) : Option ℚ :=
  if 0 < a.delaySeconds then some (toDouble ((targetTime clock a).toInt : ℚ)) else none

/-- `RouteTask`'s second Redis write: `ZADD` or `LPUSH`. -/
def routePush (target : Option ℚ) (id : String) {Body : Type} (r : Redis Body) :
    Redis Body :=
  match target with
  | some score => { r with scheduled := put r.scheduled id score }
  | none => { r with immediate := id :: r.immediate }

/-! A push writes one entry and nothing else. -/

section

variable {Body : Type} (target : Option ℚ) (id : String) (r : Redis Body)

theorem routePush_inflight : (routePush target id r).inflight = r.inflight := by
  cases target <;> rfl

theorem routePush_leases : (routePush target id r).leases = r.leases := by
  cases target <;> rfl

theorem routePush_dead : (routePush target id r).dead = r.dead := by
  cases target <;> rfl

theorem routePush_task : (routePush target id r).task = r.task := by
  cases target <;> rfl

theorem routePush_paused : (routePush target id r).paused = r.paused := by
  cases target <;> rfl

end

/-- What the components send to Redis. -/
inductive Op (Body : Type) where
  /-- `RouteTask`: `SET task:<id>`. -/
  | routeBody (a : RouteArgs)
  /-- `RouteTask`: `LPUSH` or `ZADD`; `clock` is the gateway's clock. -/
  | routePush (a : RouteArgs) (clock : ℚ)
  /-- `PauseQueue`. -/
  | pause
  /-- `ResumeQueue`. -/
  | resume
  | claimBatch (leaseIDs : List String) (expiry : ℚ)
  | heartbeat (taskID leaseID : String) (leaseDuration : ℚ)
  | ackBatch (pairs : List (String × String))
  | requeueOrDead (taskID leaseID : String) (base cap : ℚ)
  | promoteTask (taskID : String)
  | materialize (taskID : String) (score : Option ℚ) (payload : Body)
  | requeueTx (id : String)
  | deleteTx (id : String)
  /-- Redis loses everything. -/
  | wipe

/-- A command together with the Redis time at which it runs. -/
structure Call (Body : Type) where
  now : ℚ
  op : Op Body

/-- What took effect in Redis. -/
inductive Event where
  | bodySet (a : RouteArgs)
  | enqueued (a : RouteArgs)
  | paused (on : Bool)
  | claimed (taskID leaseID : String) (expiry : ℚ)
  | beat (taskID leaseID : String) (expiry : ℚ)
  | acked (taskID leaseID : String)
  /-- An owner's `requeueOrDead` took the task. -/
  | failed (taskID leaseID : String) (status : Option RequeueStatus)
  /-- A recovery's `requeueOrDead` took the task from the lease it found. -/
  | reclaimed (taskID : String) (leaseID : Option String) (status : Option RequeueStatus)
  | promoted (taskID : String)
  | materialized (taskID : String)
  | requeued (taskID : String)
  | deleted (taskID : String)
  | wiped
  deriving DecidableEq

variable {Body : Type}

/-- The pairs of an `ackBatch` that are acknowledged, each at its turn. -/
def ackedPairs : List (String × String) → Redis Body → List (String × String)
  | [], _ => []
  | (taskID, leaseID) :: rest, r =>
    if r.leases taskID = some leaseID then
      (taskID, leaseID) ::
        ackedPairs rest { r.release taskID with task := del r.task taskID }
    else ackedPairs rest r

/-- `ackBatch` returns the ids of the acknowledged pairs. -/
theorem ackBatch_acked (pairs : List (String × String)) :
    ∀ r : Redis Body, (ackBatch pairs r).2 = (ackedPairs pairs r).map (·.1) := by
  induction pairs with
  | nil => intro r; rfl
  | cons p rest ih =>
    intro r
    obtain ⟨taskID, leaseID⟩ := p
    by_cases h : r.leases taskID = some leaseID
    · simp [ackedPairs, ackBatch, if_pos h, ih]
    · simp [ackedPairs, ackBatch, if_neg h, ih]

variable [BodyCodec Body]

/-- The state after a command. -/
def Redis.after (r : Redis Body) (now : ℚ) : Op Body → Redis Body
  | .routeBody a => { r with task := put r.task a.id (marshal (routeData a)) }
  | .routePush a clock => ForgeQueue.routePush (routeTarget clock a) a.id r
  | .pause => { r with paused := true }
  | .resume => { r with paused := false }
  | .claimBatch leaseIDs expiry => (ForgeQueue.claimBatch leaseIDs expiry r).1
  | .heartbeat taskID leaseID d => (ForgeQueue.heartbeat now d taskID leaseID r).1
  | .ackBatch pairs => (ForgeQueue.ackBatch pairs r).1
  | .requeueOrDead taskID leaseID base cap =>
    (ForgeQueue.requeueOrDead now base cap taskID leaseID r).1
  | .promoteTask taskID => (ForgeQueue.promoteTask now taskID r).1
  | .materialize taskID score payload => (materializeScript taskID score payload r).1
  | .requeueTx id => ForgeQueue.requeueTx id r
  | .deleteTx id => ForgeQueue.deleteTx id r
  | .wipe => .empty

/-- The event of a `requeueOrDead` call: none when the guard rejected it. -/
def requeueEvents (now base cap : ℚ) (taskID leaseID : String) (r : Redis Body) :
    List Event :=
  match requeueGuard now taskID leaseID r with
  | some _ => []
  | none =>
    let status := (retryOrBury now base cap taskID (r.release taskID)).2
    if leaseID ≠ "" then [.failed taskID leaseID status]
    else [.reclaimed taskID (r.leases taskID) status]

/-- The events of a command, oldest first. -/
def Redis.events (r : Redis Body) (now : ℚ) : Op Body → List Event
  | .routeBody a => [.bodySet a]
  | .routePush a _ => [.enqueued a]
  | .pause => [.paused true]
  | .resume => [.paused false]
  | .claimBatch leaseIDs expiry =>
    (ForgeQueue.claimBatch leaseIDs expiry r).2.map fun c => .claimed c.taskID c.leaseID expiry
  | .heartbeat taskID leaseID d =>
    if (ForgeQueue.heartbeat now d taskID leaseID r).2 then [.beat taskID leaseID (now + d)]
    else []
  | .ackBatch pairs => (ackedPairs pairs r).map fun p => .acked p.1 p.2
  | .requeueOrDead taskID leaseID base cap => requeueEvents now base cap taskID leaseID r
  | .promoteTask taskID =>
    if (ForgeQueue.promoteTask now taskID r).2 then [.promoted taskID] else []
  | .materialize taskID score payload =>
    if (materializeScript taskID score payload r).2 then [.materialized taskID] else []
  | .requeueTx id => [.requeued id]
  | .deleteTx id => [.deleted id]
  | .wipe => [.wiped]

/-- The server and its history, newest event first. -/
structure Engine (Body : Type) where
  redis : Redis Body
  log : List Event

/-- A fresh server. -/
def Engine.init : Engine Body := ⟨.empty, []⟩

/-- Execute one command. -/
def Engine.exec (e : Engine Body) (c : Call Body) : Engine Body where
  redis := e.redis.after c.now c.op
  log := (e.redis.events c.now c.op).reverse ++ e.log

/-- Every command is enabled in every state. -/
def Engine.step (e : Engine Body) (c : Call Body) : Option (Engine Body) :=
  some (e.exec c)

/-- The state in which an engine run arrives. -/
abbrev EngineRun (ok : Engine Body → Call Body → Prop) :
    Engine Body → List (Call Body) → Engine Body → Prop :=
  Run Engine.step ok

/-- Execute a list of commands. -/
def Engine.execAll (e : Engine Body) (cs : List (Call Body)) : Engine Body :=
  cs.foldl Engine.exec e

/-- A run ends where executing its commands ends. -/
theorem EngineRun.eq_execAll {ok : Engine Body → Call Body → Prop} {e e' : Engine Body}
    {cs : List (Call Body)} (h : EngineRun ok e cs e') : e' = e.execAll cs := by
  induction h with
  | nil => rfl
  | cons _ hst _ ih =>
    rw [ih, ← Option.some.inj hst]
    rfl

/-! ## What a step can do -/

/-- One event and its effect on the server. Every command is a sequence of these
(`Redis.after_trace`), so invariants are proved per event. -/
inductive Effect : Redis Body → Event → Redis Body → Prop
  | bodySet (r a) :
      Effect r (.bodySet a) { r with task := put r.task a.id (marshal (routeData a)) }
  | enqueued (r a clock) :
      Effect r (.enqueued a) (routePush (routeTarget clock a) a.id r)
  | paused (r on) : Effect r (.paused on) { r with paused := on }
  | claimed (r taskID ready leaseID expiry) : r.paused = false →
      r.immediate = taskID :: ready →
      Effect r (.claimed taskID leaseID expiry)
        { r with immediate := ready
                 inflight := put r.inflight taskID expiry
                 leases := put r.leases taskID leaseID }
  | beat (r taskID leaseID expiry) : r.leases taskID = some leaseID →
      Effect r (.beat taskID leaseID expiry)
        { r with inflight := put r.inflight taskID expiry }
  | acked (r taskID leaseID) : r.leases taskID = some leaseID →
      Effect r (.acked taskID leaseID) { r.release taskID with task := del r.task taskID }
  | failed (r taskID leaseID now base cap) : leaseID ≠ "" →
      r.leases taskID = some leaseID →
      Effect r (.failed taskID leaseID (retryOrBury now base cap taskID (r.release taskID)).2)
        (retryOrBury now base cap taskID (r.release taskID)).1
  | reclaimed (r taskID expiry now base cap) : r.inflight taskID = some expiry →
      expiry ≤ now →
      Effect r (.reclaimed taskID (r.leases taskID)
          (retryOrBury now base cap taskID (r.release taskID)).2)
        (retryOrBury now base cap taskID (r.release taskID)).1
  | promoted (r taskID score now) : r.scheduled taskID = some score → score ≤ now →
      Effect r (.promoted taskID)
        { r with scheduled := del r.scheduled taskID, immediate := taskID :: r.immediate }
  | materialized (r taskID target payload) : ¬ r.Live taskID →
      Effect r (.materialized taskID)
        (routePush target taskID { r with task := put r.task taskID payload })
  | requeued (r id) : Effect r (.requeued id) (requeueTx id r)
  | deleted (r id) : Effect r (.deleted id) (deleteTx id r)
  | wiped (r) : Effect r .wiped .empty

/-- A sequence of effects, events oldest first. -/
inductive Trace : Redis Body → List Event → Redis Body → Prop
  | nil {r} : Trace r [] r
  | cons {r ev r' evs r''} : Effect r ev r' → Trace r' evs r'' → Trace r (ev :: evs) r''

/-- A single effect as a trace. -/
theorem Trace.single {r r' : Redis Body} {ev : Event} (h : Effect r ev r') :
    Trace r [ev] r' :=
  .cons h .nil

theorem claimLoop_trace (expiry : ℚ) (leaseIDs : List String) :
    ∀ r : Redis Body, r.paused = false →
      Trace r
        (List.zipWith (fun taskID leaseID => .claimed taskID leaseID expiry)
          (claimLoop expiry leaseIDs r).2 leaseIDs)
        (claimLoop expiry leaseIDs r).1 := by
  induction leaseIDs with
  | nil => intro r _; exact .nil
  | cons leaseID rest ih =>
    intro r hp
    cases hr : r.immediate with
    | nil => simp only [claimLoop, hr, List.zipWith_nil_left]; exact .nil
    | cons taskID ready =>
      simp only [claimLoop, hr, List.zipWith_cons_cons]
      exact .cons (.claimed r taskID ready leaseID expiry hp hr) (ih _ hp)

theorem ackBatch_trace (pairs : List (String × String)) :
    ∀ r : Redis Body,
      Trace r ((ackedPairs pairs r).map fun p => .acked p.1 p.2) (ackBatch pairs r).1 := by
  induction pairs with
  | nil => intro r; exact .nil
  | cons p rest ih =>
    intro r
    obtain ⟨taskID, leaseID⟩ := p
    by_cases h : r.leases taskID = some leaseID
    · simp only [ackedPairs, ackBatch, if_pos h, List.map_cons]
      exact .cons (.acked r taskID leaseID h) (ih _)
    · simp only [ackedPairs, ackBatch, if_neg h]
      exact ih r

theorem requeueOrDead_trace (now base cap : ℚ) (taskID leaseID : String) (r : Redis Body) :
    Trace r (requeueEvents now base cap taskID leaseID r)
      (requeueOrDead now base cap taskID leaseID r).1 := by
  unfold requeueEvents requeueOrDead requeueGuard
  by_cases hl : leaseID = ""
  · -- recovery: only an expired lease is taken
    subst hl
    simp only [ne_eq, not_true_eq_false, if_false]
    cases he : r.inflight taskID with
    | none => exact .nil
    | some expiry =>
      by_cases hlt : now < expiry
      · simp only [if_pos hlt]; exact .nil
      · simp only [if_neg hlt]
        exact .single (.reclaimed r taskID expiry now base cap he (not_lt.mp hlt))
  · simp only [ne_eq, hl, not_false_eq_true, if_true]
    by_cases hc : r.leases taskID = some leaseID
    · simp only [if_pos hc]
      exact .single (.failed r taskID leaseID now base cap hl hc)
    · simp only [if_neg hc]; exact .nil

theorem materialize_trace (taskID : String) (score : Option ℚ) (payload : Body)
    (r : Redis Body) :
    Trace r (r.events 0 (.materialize taskID score payload))
      (materializeScript taskID score payload r).1 := by
  by_cases h : r.Live taskID
  · simp only [Redis.events, materializeScript, if_pos h]; exact .nil
  · cases score with
    | none =>
      simp only [Redis.events, materializeScript, if_neg h]
      exact .single (.materialized r taskID none payload h)
    | some s =>
      simp only [Redis.events, materializeScript, if_neg h]
      exact .single (.materialized r taskID (some s) payload h)

theorem promoteTask_trace (now : ℚ) (taskID : String) (r : Redis Body) :
    Trace r (r.events now (.promoteTask taskID)) (promoteTask now taskID r).1 := by
  cases hs : r.scheduled taskID with
  | none => simp only [Redis.events, promoteTask, hs]; exact .nil
  | some score =>
    by_cases hlt : now < score
    · simp only [Redis.events, promoteTask, hs, if_pos hlt]; exact .nil
    · simp only [Redis.events, promoteTask, hs, if_neg hlt]
      exact .single (.promoted r taskID score now hs (not_lt.mp hlt))

/-- **What a command can do.** The new state is reached through the command's
events, one effect at a time. -/
theorem Redis.after_trace (r : Redis Body) (now : ℚ) (op : Op Body) :
    Trace r (r.events now op) (r.after now op) := by
  cases op with
  | routeBody a => exact .single (.bodySet r a)
  | routePush a clock => exact .single (.enqueued r a clock)
  | pause => exact .single (.paused r true)
  | resume => exact .single (.paused r false)
  | claimBatch leaseIDs expiry =>
    simp only [Redis.events, Redis.after, ForgeQueue.claimBatch]
    cases hp : r.paused with
    | true => exact .nil
    | false =>
      simp only [Bool.false_eq_true, if_false, List.map_zipWith]
      exact claimLoop_trace expiry leaseIDs r hp
  | heartbeat taskID leaseID d =>
    simp only [Redis.events, Redis.after, ForgeQueue.heartbeat]
    by_cases h : r.leases taskID = some leaseID
    · simp only [if_pos h]
      exact .single (.beat r taskID leaseID (now + d) h)
    · simp only [if_neg h]; exact .nil
  | ackBatch pairs => exact ackBatch_trace pairs r
  | requeueOrDead taskID leaseID base cap =>
    exact requeueOrDead_trace now base cap taskID leaseID r
  | promoteTask taskID => exact promoteTask_trace now taskID r
  | materialize taskID score payload => exact materialize_trace taskID score payload r
  | requeueTx id => exact .single (.requeued r id)
  | deleteTx id => exact .single (.deleted r id)
  | wipe => exact .single (.wiped r)

/-! ## Invariants of engine runs -/

/-- Every event of the list is allowed by `P` given the history before it. -/
def Allowed (P : List Event → Event → Prop) : List Event → List Event → Prop
  | _, [] => True
  | log, ev :: evs => P log ev ∧ Allowed P (ev :: log) evs

/-- Events that are allowed after any history are allowed in any order. -/
theorem Allowed.of_forall {P : List Event → Event → Prop} {evs : List Event}
    (h : ∀ ev ∈ evs, ∀ log, P log ev) : ∀ log, Allowed P log evs := by
  induction evs with
  | nil => intro log; trivial
  | cons ev evs ih =>
    intro log
    exact ⟨h ev List.mem_cons_self log,
      ih (fun x hx => h x (List.mem_cons_of_mem _ hx)) _⟩

/-- A property of the events alone can be added to what they are allowed for. -/
theorem Allowed.and {P : List Event → Event → Prop} {Q : Event → Prop} {evs : List Event}
    (hQ : ∀ ev ∈ evs, Q ev) :
    ∀ {log}, Allowed P log evs → Allowed (fun log ev => P log ev ∧ Q ev) log evs := by
  induction evs with
  | nil => intro log _; trivial
  | cons ev evs ih =>
    intro log h
    exact ⟨⟨h.1, hQ ev List.mem_cons_self⟩,
      ih (fun x hx => hQ x (List.mem_cons_of_mem _ hx)) h.2⟩

/-- The events a command can put into the history. -/
def Op.emits : Op Body → Event → Prop
  | .routeBody a, ev => ev = .bodySet a
  | .routePush a _, ev => ev = .enqueued a
  | .pause, ev => ev = .paused true
  | .resume, ev => ev = .paused false
  | .claimBatch leaseIDs expiry, ev => ∃ t, ∃ l ∈ leaseIDs, ev = .claimed t l expiry
  | .heartbeat t l _, ev => ∃ expiry, ev = .beat t l expiry
  | .ackBatch _, ev => ∃ t l, ev = .acked t l
  | .requeueOrDead t l _ _, ev =>
    (∃ status, ev = .failed t l status) ∨ ∃ l' status, ev = .reclaimed t l' status
  | .promoteTask t, ev => ev = .promoted t
  | .materialize id _ _, ev => ev = .materialized id
  | .requeueTx id, ev => ev = .requeued id
  | .deleteTx id, ev => ev = .deleted id
  | .wipe, ev => ev = .wiped

/-- The command an event comes from. -/
def Event.Source : Event → Op Body → Prop
  | .bodySet a, op => op = .routeBody a
  | .enqueued a, op => ∃ clock, op = .routePush a clock
  | .paused on, op => op = if on then .pause else .resume
  | .claimed _ l expiry, op => ∃ leaseIDs, l ∈ leaseIDs ∧ op = .claimBatch leaseIDs expiry
  | .beat t l _, op => ∃ d, op = .heartbeat t l d
  | .acked _ _, op => ∃ pairs, op = .ackBatch pairs
  | .failed t l _, op => ∃ base cap, op = .requeueOrDead t l base cap
  | .reclaimed t _ _, op => ∃ l base cap, op = .requeueOrDead t l base cap
  | .promoted t, op => op = .promoteTask t
  | .materialized t, op => ∃ score payload, op = .materialize t score payload
  | .requeued id, op => op = .requeueTx id
  | .deleted id, op => op = .deleteTx id
  | .wiped, op => op = .wipe

omit [BodyCodec Body] in
/-- **Inversion.** An event tells which command reported it. -/
theorem Op.emits_source {op : Op Body} {ev : Event} (h : op.emits ev) : ev.Source op := by
  cases op with
  | claimBatch leaseIDs expiry =>
    obtain ⟨t, l, hl, rfl⟩ := h
    exact ⟨leaseIDs, hl, rfl⟩
  | heartbeat t l d =>
    obtain ⟨expiry, rfl⟩ := h
    exact ⟨d, rfl⟩
  | ackBatch pairs =>
    obtain ⟨t, l, rfl⟩ := h
    exact ⟨pairs, rfl⟩
  | requeueOrDead t l base cap =>
    rcases h with ⟨status, rfl⟩ | ⟨l', status, rfl⟩
    · exact ⟨base, cap, rfl⟩
    · exact ⟨l, base, cap, rfl⟩
  | routePush a clock =>
    obtain rfl : ev = _ := h
    exact ⟨clock, rfl⟩
  | materialize id score payload =>
    obtain rfl : ev = _ := h
    exact ⟨score, payload, rfl⟩
  | _ =>
    obtain rfl : ev = _ := h
    rfl

theorem Redis.emits_of_mem {r : Redis Body} {now : ℚ} {op : Op Body} {ev : Event}
    (h : ev ∈ r.events now op) : op.emits ev := by
  cases op with
  | claimBatch leaseIDs expiry =>
    obtain ⟨k, hk, rfl⟩ := List.mem_map.mp h
    refine ⟨k.taskID, k.leaseID, ?_, rfl⟩
    unfold ForgeQueue.claimBatch at hk
    split at hk
    · cases hk
    · dsimp only at hk
      rw [← List.map_uncurry_zip_eq_zipWith] at hk
      obtain ⟨p, hp, rfl⟩ := List.mem_map.mp hk
      exact (List.of_mem_zip hp).2
  | heartbeat t l d =>
    simp only [Redis.events] at h
    split at h
    · exact ⟨_, List.mem_singleton.mp h⟩
    · cases h
  | ackBatch pairs =>
    obtain ⟨p, -, rfl⟩ := List.mem_map.mp h
    exact ⟨p.1, p.2, rfl⟩
  | requeueOrDead t l base cap =>
    simp only [Redis.events, requeueEvents] at h
    split at h
    · cases h
    · split at h
      · exact .inl ⟨_, List.mem_singleton.mp h⟩
      · exact .inr ⟨_, _, List.mem_singleton.mp h⟩
  | promoteTask t =>
    simp only [Redis.events] at h
    split at h
    · exact List.mem_singleton.mp h
    · cases h
  | materialize id score payload =>
    simp only [Redis.events] at h
    split at h
    · exact List.mem_singleton.mp h
    · cases h
  | _ => exact List.mem_singleton.mp h

/-- A command all of whose possible events are allowed after any history. -/
theorem Allowed.of_emits {P : List Event → Event → Prop} {r : Redis Body} {now : ℚ}
    {op : Op Body} (h : ∀ ev log, op.emits ev → P log ev) (log : List Event) :
    Allowed P log (r.events now op) :=
  .of_forall (fun _ hev log => h _ log (Redis.emits_of_mem hev)) log

/-- **Effect rule.** A relation between the server and its history that every
allowed effect keeps is kept by a trace of allowed events. -/
theorem Trace.invariant {P : List Event → Event → Prop}
    {inv : Redis Body → List Event → Prop}
    (hstep : ∀ r log ev r', P log ev → Effect r ev r' → inv r log → inv r' (ev :: log))
    {r r' : Redis Body} {evs : List Event} (h : Trace r evs r') :
    ∀ log, Allowed P log evs → inv r log → inv r' (evs.reverse ++ log) := by
  induction h with
  | nil => intro log _ hi; exact hi
  | cons heff _ ih =>
    intro log hal hi
    rw [List.reverse_cons, List.append_assoc]
    exact ih _ hal.2 (hstep _ _ _ _ hal.1 heff hi)

/-- A predicate of the server alone that every effect of the trace keeps. -/
theorem Trace.keeps {P : Redis Body → Prop} {r r' : Redis Body} {evs : List Event}
    (h : Trace r evs r') (hstep : ∀ r ev r', ev ∈ evs → Effect r ev r' → P r → P r')
    (hr : P r) : P r' := by
  induction h with
  | nil => exact hr
  | cons heff _ ih =>
    refine ih (fun r ev r' hev => hstep r ev r' (List.mem_cons_of_mem _ hev)) ?_
    exact hstep _ _ _ List.mem_cons_self heff hr

/-- **Engine rule.** If the guard on commands only lets allowed events through,
then an invariant of effects is an invariant of engine runs. -/
theorem EngineRun.invariant {ok : Engine Body → Call Body → Prop}
    {P : List Event → Event → Prop} (inv : Redis Body → List Event → Prop)
    (hok : ∀ e c, ok e c → Allowed P e.log (e.redis.events c.now c.op))
    (hstep : ∀ r log ev r', P log ev → Effect r ev r' → inv r log → inv r' (ev :: log))
    {e e' : Engine Body} {cs : List (Call Body)} (h : EngineRun ok e cs e')
    (hi : inv e.redis e.log) : inv e'.redis e'.log := by
  refine Run.invariant (fun e => inv e.redis e.log) ?_ h hi
  intro e c e' hokc hst hinv
  obtain rfl : e.exec c = e' := by simpa [Engine.step] using hst
  exact (Redis.after_trace e.redis c.now c.op).invariant hstep e.log (hok e c hokc) hinv

end ForgeQueue
