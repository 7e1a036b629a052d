import ForgeQueue.Base.Run
import ForgeQueue.Model.Redis

/-!
# One batch of a worker

`internal/worker/worker.go`, one iteration of `workerLoop` over the claims of a batch, with
the heartbeat goroutine it starts for each of them (`heartbeatLoop`). The loop reads nothing
that the heartbeats write, so what it does is a function of the claims and of the answers it
gets (`workerIteration`): the sequence of its calls and signals. `Batch.step` interleaves
that sequence with the heartbeats.

Calls that the order of events matters for have an event for the call and one for its
return. The gauges and counters of `internal/metrics` are left out.
-/

namespace ForgeQueue

open Base

/-- What `heartbeat` returns: nil, `errLeaseLost` or another error. -/
inductive BeatReply where
  | renewed
  | leaseLost
  | failed
  deriving DecidableEq

/-- What the worker does. A pair of ids names a claim by its task and its lease. -/
inductive BatchEvent where
  /-- `markLeases`. -/
  | markLeases (taskIDs : List String)
  /-- `go heartbeatLoop`. -/
  | startBeat (taskID leaseID : String)
  /-- The loop comes to the claim. -/
  | reach (taskID leaseID : String)
  /-- `Processing` is written to the journal. -/
  | processing (taskID leaseID : String)
  /-- `handler.Handle` is called. -/
  | handle (taskID leaseID : String)
  /-- It returned; `ok` if it returned nil. -/
  | handled (taskID leaseID : String) (ok : Bool)
  /-- `requeueOrDead` is called. -/
  | requeueOrDead (taskID leaseID : String)
  | requeueReturned (taskID leaseID : String)
  /-- `reportRetry`, or `reportDead`. -/
  | report (taskID : String) (dead : Bool)
  /-- `ackBatch` is called. -/
  | ackBatch (taskIDs leaseIDs : List String)
  | ackReturned
  /-- `Succeeded` is written to the journal. -/
  | succeeded (taskID : String)
  /-- `stopBeat()`, the heartbeat's context is cancelled. -/
  | stopBeat (taskID leaseID : String)
  /-- `cancelTask()`, the task's context is cancelled. -/
  | cancelTask (taskID leaseID : String)
  /-- `clearLeases`. -/
  | clearLeases (taskIDs : List String)
  /-- A heartbeat returned. -/
  | beat (taskID leaseID : String) (reply : BeatReply)
  /-- The pool's context, the parent of all others, is cancelled. -/
  | shutdown
  deriving DecidableEq

/-- The answers an iteration gets. -/
structure BatchEnv (Body : Type) where
  /-- `wp.handlers` has a handler for the task type. -/
  registered : String → Bool
  /-- The handler returns nil. -/
  handlerOk : TaskClaim Body → Bool
  /-- The reply of `requeueOrDead`; `none` is an error. -/
  requeueReply : TaskClaim Body → Option RequeueStatus
  /-- The ids `ackBatch` returns; `none` is an error. -/
  ackReply : Option (List String)
  /-- The order in which `range` goes through the keys of a map. -/
  mapOrder : List String → List String
  mapOrder_perm : ∀ keys, (mapOrder keys).Perm keys

section

variable {Body : Type}

/-- `claimedIDs`. -/
def claimedIDs (claims : List (TaskClaim Body)) : List String :=
  (claims.map (·.taskID)).filter (· ≠ "")

/-- The entry of one claim in `runtimes`: the lease whose heartbeat it stops. -/
def addRuntime (rts : String → Option String) (claim : TaskClaim Body) :
    String → Option String :=
  if claim.taskID = "" then rts else put rts claim.taskID claim.leaseID

/-- `runtimes`. -/
def runtimes (claims : List (TaskClaim Body)) : String → Option String :=
  claims.foldl addRuntime nothing

/-- `stopTask`. -/
def stopTask (rts : String → Option String) (id : String) : List BatchEvent :=
  match rts id with
  | some leaseID => [.stopBeat id leaseID, .cancelTask id leaseID]
  | none => []

/-- The heartbeats started up front. -/
def startBeats (claims : List (TaskClaim Body)) : List BatchEvent :=
  claims.flatMap fun claim =>
    if claim.taskID = "" then [] else [.startBeat claim.taskID claim.leaseID]

/-- What follows a `requeueOrDead` that did not fail. -/
def reportStatus (taskID : String) : RequeueStatus → List BatchEvent
  | .scheduled => [.report taskID false]
  | .dead => [.report taskID true]
  | _ => []

/-- A handler error. When the script call fails too, the heartbeat is left to the end of
the batch. -/
def failTask (env : BatchEnv Body) (rts : String → Option String) (claim : TaskClaim Body)
    (task : ModelTask) : List BatchEvent :=
  .requeueOrDead task.id claim.leaseID :: .requeueReturned task.id claim.leaseID ::
    match env.requeueReply claim with
    | none => []
    | some status => reportStatus task.id status ++ stopTask rts task.id

/-- The acknowledgement, sent only if there is something to acknowledge. -/
def ackEvents (env : BatchEnv Body) (ackIDs ackLeases : List String) : List BatchEvent :=
  if ackIDs = [] then []
  else
    .ackBatch ackIDs ackLeases :: .ackReturned ::
      match env.ackReply with
      | none => []
      | some ackedIDs => ackedIDs.map .succeeded

/-- The end of the batch: every heartbeat left is stopped. -/
def closeEvents (env : BatchEnv Body) (claims : List (TaskClaim Body)) : List BatchEvent :=
  (env.mapOrder (claimedIDs claims).dedup).flatMap (stopTask (runtimes claims)) ++
    [.clearLeases (claimedIDs claims)]

variable [BodyCodec Body]

/-- The loop body for one claim: its events, and whether the claim is to be acknowledged. -/
def runClaim (env : BatchEnv Body) (rts : String → Option String) (claim : TaskClaim Body) :
    List BatchEvent × Bool :=
  if claim.taskID = "" then ([], false)
  else
    match claim.body with
    | none => (stopTask rts claim.taskID, false)
    | some body =>
      match unmarshal body with
      | none => (stopTask rts claim.taskID, false)
      | some task =>
        if env.registered task.taskType = false then (stopTask rts claim.taskID, false)
        else
          ([.processing claim.taskID claim.leaseID, .handle claim.taskID claim.leaseID,
              .handled claim.taskID claim.leaseID (env.handlerOk claim)] ++
            (if env.handlerOk claim then [] else failTask env rts claim task),
          env.handlerOk claim)

/-- The loop over the claims, with `ackIDs` and `ackLeases`. -/
def runClaims (env : BatchEnv Body) (rts : String → Option String) :
    List (TaskClaim Body) → List String → List String →
      List BatchEvent × List String × List String
  | [], ackIDs, ackLeases => ([], ackIDs, ackLeases)
  | claim :: rest, ackIDs, ackLeases =>
    let (events, ok) := runClaim env rts claim
    let next :=
      if ok then runClaims env rts rest (ackIDs ++ [claim.taskID]) (ackLeases ++ [claim.leaseID])
      else runClaims env rts rest ackIDs ackLeases
    (.reach claim.taskID claim.leaseID :: events ++ next.1, next.2)

/-- One iteration of `workerLoop`. Without a claim it only sleeps. -/
def workerIteration (env : BatchEnv Body) (claims : List (TaskClaim Body)) : List BatchEvent :=
  if claims = [] then []
  else
    let (events, ackIDs, ackLeases) := runClaims env (runtimes claims) claims [] []
    .markLeases (claimedIDs claims) :: startBeats claims ++ events ++
      ackEvents env ackIDs ackLeases ++ closeEvents env claims

/-- The handler of the claim is called: it has an id and a readable body, and there is a
handler for its type. -/
def runs (env : BatchEnv Body) (claim : TaskClaim Body) : Bool :=
  claim.taskID ≠ "" &&
    match claim.body.bind unmarshal with
    | none => false
    | some task => env.registered task.taskType

/-- The handler is called and returns an error. -/
def failedTask (env : BatchEnv Body) (claim : TaskClaim Body) : Bool :=
  runs env claim && !env.handlerOk claim

/-- The handler is called and returns nil. -/
def succeededTask (env : BatchEnv Body) (claim : TaskClaim Body) : Bool :=
  runs env claim && env.handlerOk claim

/-! ## The parts of an iteration -/

omit [BodyCodec Body] in
theorem mem_stopTask {rts : String → Option String} {id : String} {e : BatchEvent}
    (h : e ∈ stopTask rts id) :
    ∃ leaseID, e = .stopBeat id leaseID ∨ e = .cancelTask id leaseID := by
  unfold stopTask at h
  split at h
  · rename_i leaseID _
    simp only [List.mem_cons, List.not_mem_nil, or_false] at h
    exact ⟨leaseID, h⟩
  · cases h

omit [BodyCodec Body] in
theorem mem_failTask {env : BatchEnv Body} {rts : String → Option String}
    {claim : TaskClaim Body} {task : ModelTask} {e : BatchEvent}
    (h : e ∈ failTask env rts claim task) :
    e = .requeueOrDead task.id claim.leaseID ∨ e = .requeueReturned task.id claim.leaseID ∨
      (∃ dead, e = .report task.id dead) ∨ e ∈ stopTask rts task.id := by
  rw [failTask] at h
  rcases List.mem_cons.mp h with rfl | h
  · exact .inl rfl
  rcases List.mem_cons.mp h with rfl | h
  · exact .inr (.inl rfl)
  cases hreply : env.requeueReply claim with
  | none => rw [hreply] at h; cases h
  | some status =>
    rw [hreply] at h
    rcases List.mem_append.mp h with h | h
    · refine .inr (.inr (.inl ?_))
      cases status <;> simp only [reportStatus, List.mem_singleton, List.not_mem_nil] at h
      · exact ⟨true, h⟩
      · exact ⟨false, h⟩
    · exact .inr (.inr (.inr h))

omit [BodyCodec Body] in
theorem mem_ackEvents {env : BatchEnv Body} {ackIDs ackLeases : List String} {e : BatchEvent}
    (h : e ∈ ackEvents env ackIDs ackLeases) :
    e = .ackBatch ackIDs ackLeases ∨ e = .ackReturned ∨ ∃ id, e = .succeeded id := by
  unfold ackEvents at h
  split at h
  · cases h
  rcases List.mem_cons.mp h with rfl | h
  · exact .inl rfl
  rcases List.mem_cons.mp h with rfl | h
  · exact .inr (.inl rfl)
  cases hreply : env.ackReply with
  | none => rw [hreply] at h; cases h
  | some acked =>
    rw [hreply] at h
    obtain ⟨id, -, rfl⟩ := List.mem_map.mp h
    exact .inr (.inr ⟨id, rfl⟩)

/-- A claim that is run. -/
theorem runClaim_of_runs {env : BatchEnv Body} {claim : TaskClaim Body}
    (h : runs env claim = true) (rts : String → Option String) :
    ∃ body task, claim.body = some body ∧ unmarshal body = some task ∧
      runClaim env rts claim =
        ([.processing claim.taskID claim.leaseID, .handle claim.taskID claim.leaseID,
            .handled claim.taskID claim.leaseID (env.handlerOk claim)] ++
          (if env.handlerOk claim then [] else failTask env rts claim task),
        env.handlerOk claim) := by
  unfold runs at h
  rw [Bool.and_eq_true, decide_eq_true_iff] at h
  obtain ⟨hid, hrun⟩ := h
  cases hbody : claim.body with
  | none => rw [hbody] at hrun; cases hrun
  | some body =>
    rw [hbody, Option.bind_some] at hrun
    cases htask : unmarshal body with
    | none => rw [htask] at hrun; cases hrun
    | some task =>
      rw [htask] at hrun
      refine ⟨body, task, rfl, htask, ?_⟩
      have hreg : env.registered task.taskType = true := hrun
      simp [runClaim, hid, hbody, htask, hreg]

/-- A claim that is not run has its heartbeat stopped, if there is one. -/
theorem runClaim_of_not_runs {env : BatchEnv Body} {claim : TaskClaim Body}
    (h : runs env claim = false) (rts : String → Option String) :
    runClaim env rts claim =
      (if claim.taskID = "" then [] else stopTask rts claim.taskID, false) := by
  unfold runClaim
  by_cases hid : claim.taskID = ""
  · rw [if_pos hid, if_pos hid]
  · rw [if_neg hid, if_neg hid]
    cases hbody : claim.body with
    | none => rfl
    | some body =>
      cases htask : unmarshal body with
      | none => simp only [htask]
      | some task =>
        have hreg : env.registered task.taskType = false := by
          simpa [runs, hid, hbody, htask] using h
        simp only [htask, hreg, if_true]

theorem runClaim_ok (env : BatchEnv Body) (rts : String → Option String)
    (claim : TaskClaim Body) : (runClaim env rts claim).2 = succeededTask env claim := by
  unfold succeededTask
  cases hruns : runs env claim with
  | true =>
    obtain ⟨_, _, -, -, heq⟩ := runClaim_of_runs hruns rts
    rw [heq, Bool.true_and]
  | false => rw [runClaim_of_not_runs hruns, Bool.false_and]

/-- The events of one claim. -/
def claimEvents (env : BatchEnv Body) (rts : String → Option String) (claim : TaskClaim Body) :
    List BatchEvent :=
  .reach claim.taskID claim.leaseID :: (runClaim env rts claim).1

/-- The loop handles the claims one after the other and collects the successes in order. -/
theorem runClaims_eq (env : BatchEnv Body) (rts : String → Option String)
    (claims : List (TaskClaim Body)) : ∀ ackIDs ackLeases : List String,
    runClaims env rts claims ackIDs ackLeases =
      (claims.flatMap (claimEvents env rts),
        ackIDs ++ (claims.filter (succeededTask env)).map (·.taskID),
        ackLeases ++ (claims.filter (succeededTask env)).map (·.leaseID)) := by
  induction claims with
  | nil => simp [runClaims]
  | cons claim rest ih =>
    intro ackIDs ackLeases
    have hok := runClaim_ok env rts claim
    rw [runClaims]
    cases hsucc : succeededTask env claim with
    | true =>
      rw [hsucc] at hok
      simp [hok, ih, claimEvents, hsucc]
    | false =>
      rw [hsucc] at hok
      simp [hok, ih, claimEvents, hsucc]

theorem workerIteration_eq {env : BatchEnv Body} {claims : List (TaskClaim Body)}
    (h : claims ≠ []) :
    workerIteration env claims =
      .markLeases (claimedIDs claims) :: startBeats claims ++
        claims.flatMap (claimEvents env (runtimes claims)) ++
        ackEvents env ((claims.filter (succeededTask env)).map (·.taskID))
          ((claims.filter (succeededTask env)).map (·.leaseID)) ++
        closeEvents env claims := by
  rw [workerIteration, if_neg h, runClaims_eq]
  rfl

end

/-! ## The heartbeats beside the loop -/

/-- Where a `heartbeatLoop` stands. -/
inductive BeatPc where
  | unstarted
  /-- In the `select`. -/
  | waiting
  /-- The heartbeat failed; the context is looked at next. -/
  | failed
  /-- The context is still valid; the task is cancelled next. -/
  | cancelling
  | returned
  deriving DecidableEq

/-- A batch under way: what the loop has still to do, what has happened, and the heartbeat
of each claim. -/
structure Batch where
  rest : List BatchEvent
  log : List BatchEvent
  beats : String × String → BeatPc

/-- A step of the loop, or of the heartbeat of a claim. -/
inductive BatchAct where
  | loop
  /-- The ticker fires and `heartbeat` returns. -/
  | tick (taskID leaseID : String) (reply : BeatReply)
  /-- `ctx.Err()`. -/
  | check (taskID leaseID : String)
  | cancelTask (taskID leaseID : String)
  /-- `<-ctx.Done()`. -/
  | done (taskID leaseID : String)
  | shutdown
  deriving DecidableEq

/-- The batch before its first action. -/
def Batch.start {Body : Type} [BodyCodec Body] (env : BatchEnv Body)
    (claims : List (TaskClaim Body)) : Batch where
  rest := workerIteration env claims
  log := []
  beats := fun _ => .unstarted

/-- The context of the heartbeat is cancelled. -/
def Batch.beatDone (s : Batch) (taskID leaseID : String) : Prop :=
  .stopBeat taskID leaseID ∈ s.log ∨ .shutdown ∈ s.log

instance (s : Batch) (taskID leaseID : String) : Decidable (s.beatDone taskID leaseID) :=
  inferInstanceAs (Decidable (_ ∨ _))

/-- Move one heartbeat. -/
def Batch.setBeat (s : Batch) (taskID leaseID : String) (pc : BeatPc) : Batch :=
  { s with beats := Function.update s.beats (taskID, leaseID) pc }

/-- Something happened. -/
def Batch.record (s : Batch) (e : BatchEvent) : Batch := { s with log := s.log ++ [e] }

/-- The loop's next action; starting a heartbeat is the only one a heartbeat sees at once. -/
def Batch.perform (s : Batch) : BatchEvent → Batch
  | .startBeat taskID leaseID =>
    (s.setBeat taskID leaseID .waiting).record (.startBeat taskID leaseID)
  | e => s.record e

/-- One step of the loop or of a heartbeat. -/
def Batch.step (s : Batch) : BatchAct → Option Batch
  | .loop =>
    match s.rest with
    | [] => none
    | e :: rest => some ({ s with rest := rest }.perform e)
  | .tick taskID leaseID reply =>
    if s.beats (taskID, leaseID) = .waiting then
      let s := s.record (.beat taskID leaseID reply)
      some (if reply = .renewed then s else s.setBeat taskID leaseID .failed)
    else none
  | .check taskID leaseID =>
    if s.beats (taskID, leaseID) = .failed then
      some (s.setBeat taskID leaseID
        (if s.beatDone taskID leaseID then .returned else .cancelling))
    else none
  | .cancelTask taskID leaseID =>
    if s.beats (taskID, leaseID) = .cancelling then
      some ((s.setBeat taskID leaseID .returned).record (.cancelTask taskID leaseID))
    else none
  | .done taskID leaseID =>
    if s.beats (taskID, leaseID) = .waiting ∧ s.beatDone taskID leaseID then
      some (s.setBeat taskID leaseID .returned)
    else none
  | .shutdown => some (s.record .shutdown)

/-- Runs of a batch. -/
abbrev BatchRun (ok : Batch → BatchAct → Prop) : Batch → List BatchAct → Batch → Prop :=
  Run Batch.step ok

end ForgeQueue
