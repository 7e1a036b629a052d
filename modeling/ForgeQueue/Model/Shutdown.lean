import ForgeQueue.Model.Batch
import ForgeQueue.Model.Registry

/-!
# Starting and stopping a pool

`Start` and `Stop` of `internal/worker/worker.go`. `Start` launches the registration loop,
the workers, the recovery and the promotion loop and, where they are configured, the
reconciler and the depth sampler; `wg` counts them all. `Stop` closes `quit`, cancels the
context of the last two, waits for the goroutines or for `drainTimeout`, whichever comes
first, cancels the pool's context and removes the pool from the registry.

A `Crew` is one pool: where each goroutine is, the signals they share, and the registry. A
step is one move of one goroutine, or of `Stop`. Heartbeats are not counted by `wg` and not
part of it.
-/

namespace ForgeQueue

open Base

/-- Where `registrationLoop` is. -/
inductive RegistrationPc where
  /-- Before `publishMeta`. -/
  | publishing
  /-- In the `select`. -/
  | waiting
  | returned
  deriving DecidableEq

/-- Where a `workerLoop` is. -/
inductive WorkerPc where
  /-- In the `select`. -/
  | waiting
  /-- Before `claimBatch`. -/
  | claiming
  /-- In an iteration, with the rest of it. -/
  | batch (rest : List BatchEvent)
  | returned
  deriving DecidableEq

/-- The loops that do one round for each tick. -/
inductive Ticker where
  | recovery
  | promotion
  | reconciler
  | sampler
  deriving DecidableEq

/-- Where such a loop is. -/
inductive TickerPc where
  /-- In the `select`. -/
  | waiting
  /-- In a round. -/
  | round
  | returned
  deriving DecidableEq

/-- Where `Stop` is; each constructor names its next action. -/
inductive StopPc where
  /-- Not called yet. -/
  | closeQuit
  | bgCancel
  /-- In the `select` over `done` and `drainTimeout`. -/
  | wait
  | cancel
  | deregister
  | returned
  deriving DecidableEq

/-- One pool with its goroutines. -/
structure Crew where
  /-- `quit` is closed. -/
  quit : Bool
  /-- `bgCtx` is cancelled. -/
  bgCancelled : Bool
  /-- `ctx` is cancelled. -/
  cancelled : Bool
  registration : RegistrationPc
  workers : ℕ → WorkerPc
  tickers : Ticker → TickerPc
  stop : StopPc
  registry : Registry

/-- A move. -/
inductive CrewAct (Body : Type) where
  /-- `publishMeta`, at Redis's time and the pool's. -/
  | publish (now clock : ℚ)
  /-- The registration loop takes a tick, or leaves. -/
  | registrationTick
  | registrationQuit
  /-- A worker looks at `quit`. -/
  | check (i : ℕ)
  /-- `claimBatch` of a worker returns; no claims stand for an empty reply or an error. -/
  | claim (i : ℕ) (env : BatchEnv Body) (claims : List (TaskClaim Body))
  /-- The next event of a worker's iteration. -/
  | work (i : ℕ) (now : ℚ) (e : BatchEvent)
  /-- A loop takes a tick, ends its round, or leaves. -/
  | tick (t : Ticker)
  | finish (t : Ticker)
  | leave (t : Ticker)
  /-- The moves of `Stop`. -/
  | closeQuit
  | bgCancel
  | drained
  | timeout
  | cancel
  | deregister
  /-- Somebody else, or the passing of time, changes the registry. -/
  | others (g : Registry)

/-- The pool right after `Start`. Without a journal there is no reconciler, without metrics
no sampler, which publishes once before its first tick. -/
def Crew.start (p : Pool) (journal ready : Bool) (g : Registry) : Crew where
  quit := false
  bgCancelled := false
  cancelled := false
  registration := .publishing
  workers i := if i < p.concurrencyLimit then .waiting else .returned
  tickers
    | .recovery | .promotion => .waiting
    | .reconciler => if journal then .waiting else .returned
    | .sampler => if ready then .round else .returned
  stop := .closeQuit
  registry := g

/-- The signal a loop leaves on. -/
def Crew.signal (s : Crew) : Ticker → Bool
  | .recovery | .promotion => s.quit
  | .reconciler | .sampler => s.bgCancelled

/-- `wg` is down to zero. -/
def Crew.allReturned (p : Pool) (s : Crew) : Prop :=
  s.registration = .returned ∧ (∀ i < p.concurrencyLimit, s.workers i = .returned) ∧
    ∀ t ∈ [Ticker.recovery, .promotion, .reconciler, .sampler], s.tickers t = .returned

instance (p : Pool) (s : Crew) : Decidable (s.allReturned p) :=
  inferInstanceAs (Decidable (_ ∧ _ ∧ _))

/-- Move one worker. -/
def Crew.setWorker (s : Crew) (i : ℕ) (pc : WorkerPc) : Crew :=
  { s with workers := Function.update s.workers i pc }

/-- Move one loop. -/
def Crew.setTicker (s : Crew) (t : Ticker) (pc : TickerPc) : Crew :=
  { s with tickers := Function.update s.tickers t pc }

/-- What an event of an iteration does to the registry. -/
def onRegistry (p : Pool) (now : ℚ) : BatchEvent → Registry → Registry
  | .markLeases taskIDs => ForgeQueue.markLeases now p.id taskIDs
  | .clearLeases taskIDs => ForgeQueue.clearLeases now p.id taskIDs
  | _ => id

/-- The iteration goes on, or the worker is back in the `select`. -/
def WorkerPc.ofRest : List BatchEvent → WorkerPc
  | [] => .waiting
  | e :: rest => .batch (e :: rest)

/-- One move. -/
def Crew.step {Body : Type} [BodyCodec Body] (p : Pool) (s : Crew) : CrewAct Body → Option Crew
  | .publish now clock =>
    if s.registration = .publishing then
      some { s with
        registration := .waiting
        registry := publishMeta now clock p s.registry }
    else none
  | .registrationTick =>
    if s.registration = .waiting then some { s with registration := .publishing } else none
  | .registrationQuit =>
    if s.registration = .waiting ∧ s.quit = true then some { s with registration := .returned }
    else none
  | .check i =>
    if s.workers i = .waiting then
      some (s.setWorker i (if s.quit then .returned else .claiming))
    else none
  | .claim i env claims =>
    -- a call under a cancelled context returns an error
    if s.workers i = .claiming ∧ (s.cancelled = true → claims = []) then
      some (s.setWorker i (.ofRest (workerIteration env claims)))
    else none
  | .work i now e =>
    match s.workers i with
    | .batch (e' :: rest) =>
      if e' = e then
        some ({ s with registry := onRegistry p now e s.registry }.setWorker i (.ofRest rest))
      else none
    | _ => none
  | .tick t => if s.tickers t = .waiting then some (s.setTicker t .round) else none
  | .finish t => if s.tickers t = .round then some (s.setTicker t .waiting) else none
  | .leave t =>
    if s.tickers t = .waiting ∧ s.signal t = true then some (s.setTicker t .returned) else none
  | .closeQuit =>
    if s.stop = .closeQuit then some { s with quit := true, stop := .bgCancel } else none
  | .bgCancel =>
    if s.stop = .bgCancel then some { s with bgCancelled := true, stop := .wait } else none
  | .drained =>
    if s.stop = .wait ∧ s.allReturned p then some { s with stop := .cancel } else none
  | .timeout => if s.stop = .wait then some { s with stop := .cancel } else none
  | .cancel =>
    if s.stop = .cancel then some { s with cancelled := true, stop := .deregister } else none
  | .deregister =>
    if s.stop = .deregister then
      some { s with
        stop := .returned
        registry := ForgeQueue.deregister p.id s.registry }
    else none
  | .others g => some { s with registry := g }

/-- Runs of a pool. -/
abbrev CrewRun {Body : Type} [BodyCodec Body] (p : Pool)
    (ok : Crew → CrewAct Body → Prop) : Crew → List (CrewAct Body) → Crew → Prop :=
  Run (Crew.step p) ok

end ForgeQueue
