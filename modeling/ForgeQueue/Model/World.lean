import ForgeQueue.Model.Journal
import Mathlib.Logic.Function.Basic

/-!
# The queue with its journal

Redis, the journal and every process that writes to both: gateway calls, the worker
and recovery loops of any number of pools, promotion loops and reconcilers. A step of
the world is one Redis command or script, or one journal statement, of one process; the
processes keep their own program counters between steps, so every interleaving is a
run. A worker or a gateway call may crash between any two of its steps.
-/

namespace ForgeQueue

open Base

/-- Where a `RouteTask` call stands. -/
inductive RoutePc where
  /-- The journal row is written. -/
  | journaled
  /-- The body is written. -/
  | bodySet
  /-- The queue entry is written. -/
  | pushed
  /-- The call returned nil. -/
  | returned
  | crashed
  deriving DecidableEq

/-- A `RouteTask` call: its arguments, the clock it computed the due time with, its
program counter. -/
structure RouteCall where
  args : RouteArgs
  clock : ℚ
  pc : RoutePc

/-- The call has started and neither returned nor crashed. -/
def RouteCall.inProgress (c : RouteCall) : Prop :=
  c.pc ≠ .returned ∧ c.pc ≠ .crashed

/-- A worker or recovery goroutine. `todo` are the claims of the batch that are still
to be handled, `acks` the successes so far. Recovery is idle between its tasks. -/
inductive AgentPc (Body : Type) where
  | idle
  | batch (todo : List (TaskClaim Body)) (acks : List (String × String))
  /-- The handler runs. -/
  | handling (claim : TaskClaim Body) (task : ModelTask) (todo : List (TaskClaim Body))
      (acks : List (String × String))
  /-- `requeueOrDead` answered `dead` or `scheduled`; the body is read next. -/
  | reporting (taskID : String) (dead : Bool) (todo : List (TaskClaim Body))
      (acks : List (String × String))
  /-- The counter is known; the journal is written next. -/
  | journaling (taskID : String) (dead : Bool) (attempts : Int)
      (todo : List (TaskClaim Body)) (acks : List (String × String))
  /-- `ackBatch` answered; `Succeeded` is written for each id. -/
  | succeeding (ids : List String)

/-- A `ReconcileLoop`. `full` says that the page had `reconcilePageSize` rows. -/
inductive ReconcilerPc (Body : Type) where
  | idle (cursor : Key)
  /-- Inside `ReconcileOnce`: the rows of the page still to be verified. -/
  | sweeping (next : Key) (rest : List (Row Body)) (full : Bool)
  /-- The script ran for `row`; `Materialized` is written next. -/
  | clearing (row : Row Body) (rest : List (Row Body)) (full : Bool)

structure World (Body : Type) where
  engine : Engine Body
  journal : List (Row Body)
  calls : String → Option RouteCall
  agents : ℕ → AgentPc Body
  reconcilers : ℕ → ReconcilerPc Body

/-- One step of one process. Clock readings and tokens are chosen by the environment. -/
inductive Act where
  | routeStart (a : RouteArgs) (clock pgNow : ℚ)
  | routeSet (id : String)
  | routePush (id : String)
  | routeDone (id : String)
  | routeCrash (id : String)
  | claim (agent : ℕ) (leaseIDs : List String) (expiry : ℚ)
  | skip (agent : ℕ)
  | process (agent : ℕ)
  | handlerOk (agent : ℕ)
  | handlerFail (agent : ℕ) (now base cap : ℚ)
  | recover (agent : ℕ) (taskID : String) (now base cap : ℚ)
  | readReport (agent : ℕ)
  | writeReport (agent : ℕ) (due : ℚ)
  | ack (agent : ℕ)
  | succeeded (agent : ℕ)
  | agentCrash (agent : ℕ)
  | heartbeat (taskID leaseID : String) (now leaseDuration : ℚ)
  | promote (taskID : String) (now : ℚ)
  | readPage (reconciler : ℕ)
  | materializeRow (reconciler : ℕ) (clock : ℚ)
  | clearRow (reconciler : ℕ)
  | finishPage (reconciler : ℕ)
  | reconcilerCrash (reconciler : ℕ)
  | wipe
  deriving DecidableEq

variable {Body : Type}

/-- Everything idle, both stores empty. -/
def World.init : World Body where
  engine := .init
  journal := []
  calls := nothing
  agents := fun _ => .idle
  reconcilers := fun _ => .idle zeroCursor

/-- Move one goroutine. -/
def World.setAgent (w : World Body) (i : ℕ) (pc : AgentPc Body) : World Body :=
  { w with agents := Function.update w.agents i pc }

/-- Move one reconciler. -/
def World.setReconciler (w : World Body) (k : ℕ) (pc : ReconcilerPc Body) : World Body :=
  { w with reconcilers := Function.update w.reconcilers k pc }

/-- Move one gateway call. -/
def World.setCall (w : World Body) (c : RouteCall) (pc : RoutePc) : World Body :=
  { w with calls := put w.calls c.args.id { c with pc := pc } }

variable [BodyCodec Body]

/-- Send one command to Redis. -/
def World.exec (w : World Body) (now : ℚ) (op : Op Body) : World Body :=
  { w with engine := w.engine.exec ⟨now, op⟩ }

/-- What follows a `requeueOrDead`: `scheduled` and `dead` are reported to the
journal, everything else is not. -/
def afterRequeue (taskID : String) (status : Option RequeueStatus)
    (todo : List (TaskClaim Body)) (acks : List (String × String)) : AgentPc Body :=
  match status with
  | some .scheduled => .reporting taskID false todo acks
  | some .dead => .reporting taskID true todo acks
  | _ => .batch todo acks

/-- The steps of the gateway. -/
def World.routeStep (w : World Body) : Act → Option (World Body)
  | .routeStart a clock pgNow =>
    if (w.calls a.id).isSome then none
    else some { w with
      journal := journalEnqueue pgNow (routeRow clock a) w.journal
      calls := put w.calls a.id ⟨a, clock, .journaled⟩ }
  | .routeSet id =>
    match w.calls id with
    | some c =>
      if c.pc = .journaled then some ((w.exec 0 (.routeBody c.args)).setCall c .bodySet)
      else none
    | none => none
  | .routePush id =>
    match w.calls id with
    | some c =>
      if c.pc = .bodySet then some ((w.exec 0 (.routePush c.args c.clock)).setCall c .pushed)
      else none
    | none => none
  | .routeDone id =>
    match w.calls id with
    | some c =>
      if c.pc = .pushed then
        some ({ w with journal := journalMaterialized c.args.id w.journal }.setCall c .returned)
      else none
    | none => none
  | .routeCrash id =>
    match w.calls id with
    | some c =>
      if c.pc = .returned then none else some (w.setCall c .crashed)
    | none => none
  | _ => none

/-- The steps of worker, recovery, heartbeat and promotion loops. -/
def World.agentStep (w : World Body) : Act → Option (World Body)
  | .claim i leaseIDs expiry =>
    match w.agents i with
    | .idle =>
      let claims := (claimBatch leaseIDs expiry w.engine.redis).2
      some ((w.exec 0 (.claimBatch leaseIDs expiry)).setAgent i
        (if claims = [] then .idle else .batch claims []))
    | _ => none
  | .skip i =>
    -- no id, no body, a body that does not parse, or no handler for its type
    match w.agents i with
    | .batch (_ :: todo) acks => some (w.setAgent i (.batch todo acks))
    | _ => none
  | .process i =>
    match w.agents i with
    | .batch (claim :: todo) acks =>
      if claim.taskID = "" then none
      else
        match claim.body with
        | none => none
        | some body =>
          match unmarshal body with
          | none => none
          | some task =>
            some ({ w with journal := journalProcessing claim.taskID w.journal }.setAgent i
              (.handling claim task todo acks))
    | _ => none
  | .handlerOk i =>
    match w.agents i with
    | .handling claim _ todo acks =>
      some (w.setAgent i (.batch todo (acks ++ [(claim.taskID, claim.leaseID)])))
    | _ => none
  | .handlerFail i now base cap =>
    match w.agents i with
    | .handling claim task todo acks =>
      let status := (requeueOrDead now base cap task.id claim.leaseID w.engine.redis).2
      some ((w.exec now (.requeueOrDead task.id claim.leaseID base cap)).setAgent i
        (afterRequeue task.id status todo acks))
    | _ => none
  | .recover i taskID now base cap =>
    match w.agents i with
    | .idle =>
      let status := (requeueOrDead now base cap taskID "" w.engine.redis).2
      some ((w.exec now (.requeueOrDead taskID "" base cap)).setAgent i
        (afterRequeue taskID status [] []))
    | _ => none
  | .readReport i =>
    -- `readTaskForJournal`: without a readable body nothing is reported
    match w.agents i with
    | .reporting taskID dead todo acks =>
      match (w.engine.redis.task taskID).bind unmarshal with
      | none => some (w.setAgent i (.batch todo acks))
      | some t => some (w.setAgent i (.journaling taskID dead t.attempts todo acks))
    | _ => none
  | .writeReport i due =>
    match w.agents i with
    | .journaling taskID dead attempts todo acks =>
      let journal :=
        if dead then journalDead taskID attempts w.journal
        else journalRetrying taskID attempts due w.journal
      some ({ w with journal := journal }.setAgent i (.batch todo acks))
    | _ => none
  | .ack i =>
    match w.agents i with
    | .batch [] [] => some (w.setAgent i .idle)
    | .batch [] acks =>
      some ((w.exec 0 (.ackBatch acks)).setAgent i
        (.succeeding (ackBatch acks w.engine.redis).2))
    | _ => none
  | .succeeded i =>
    match w.agents i with
    | .succeeding [] => some (w.setAgent i .idle)
    | .succeeding (id :: ids) =>
      some ({ w with journal := journalSucceeded id w.journal }.setAgent i (.succeeding ids))
    | _ => none
  | .agentCrash i => some (w.setAgent i .idle)
  | .heartbeat taskID leaseID now d => some (w.exec now (.heartbeat taskID leaseID d))
  | .promote taskID now => some (w.exec now (.promoteTask taskID))
  | _ => none

/-- The steps of the reconcilers. -/
def World.reconcilerStep (w : World Body) : Act → Option (World Body)
  | .readPage k =>
    match w.reconcilers k with
    | .idle cursor =>
      let page := active cursor reconcilePageSize w.journal
      some (w.setReconciler k (.sweeping cursor page (decide (page.length = reconcilePageSize))))
    | _ => none
  | .materializeRow k clock =>
    match w.reconcilers k with
    | .sweeping _ (row :: rest) full =>
      some ((w.exec 0 (.materialize row.id (materializeScore clock row) row.payload)).setReconciler
        k (.clearing row rest full))
    | _ => none
  | .clearRow k =>
    match w.reconcilers k with
    | .clearing row rest full =>
      some ({ w with journal := journalMaterialized row.id w.journal }.setReconciler k
        (.sweeping row.key rest full))
    | _ => none
  | .finishPage k =>
    match w.reconcilers k with
    | .sweeping next [] full =>
      some (w.setReconciler k (.idle (if full then next else zeroCursor)))
    | _ => none
  | .reconcilerCrash k => some (w.setReconciler k (.idle zeroCursor))
  | _ => none

/-- One step of the world. -/
def World.step (w : World Body) (act : Act) : Option (World Body) :=
  match act with
  | .routeStart .. | .routeSet _ | .routePush _ | .routeDone _ | .routeCrash _ => w.routeStep act
  | .readPage _ | .materializeRow .. | .clearRow _ | .finishPage _ | .reconcilerCrash _ =>
    w.reconcilerStep act
  | .wipe => some (w.exec 0 .wipe)
  | _ => w.agentStep act

/-- Runs of the world. -/
abbrev WorldRun (ok : World Body → Act → Prop) : World Body → List Act → World Body → Prop :=
  Run World.step ok

end ForgeQueue
