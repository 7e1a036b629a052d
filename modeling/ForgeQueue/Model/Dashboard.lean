import ForgeQueue.Model.Api
import ForgeQueue.Model.Loops

/-!
# What the dashboard reads

The read side of `internal/httpapi/handlers.go` and the depth sampler of
`internal/metrics`. `readTaskFull` looks at four keys, one command after the other, and
other components move the task between them, so each command has the state it reads in as
an argument of its own.
-/

namespace ForgeQueue

open Base

/-- `JobStatus`. -/
inductive JobStatus where
  | pending
  | processing
  | completed
  | failed
  | retrying
  | delayed
  | dlq
  | cancelled
  | unknown
  deriving DecidableEq

/-- The members `readTaskFull` fills in of the API's `Job`; times are instants. -/
structure JobView where
  id : String
  queue : String
  task : String
  status : JobStatus
  attempts : Int
  maxAttempts : Int
  createdAt : ℚ
  enqueuedAt : ℚ
  payload : Json

/-- What `readTaskFull` returns: a job, `(nil, false, nil)`, or the decoder's error. -/
inductive JobLookup where
  | found (job : JobView)
  | notFound
  | broken

/-- `DLQItem`; `age_ms` is always 0. -/
structure DLQItem where
  jobID : String
  originalQueue : String
  task : String
  attempts : Int
  lastError : String
  failedAt : ℚ

/-- `QueueDepths`. -/
structure QueueDepths where
  ready : ℕ
  inflight : ℕ
  scheduled : ℕ
  dead : ℕ
  deriving DecidableEq

section

variable {Body : Type} [BodyCodec Body]

/-- `isDead`. -/
def isDead (id : String) (r : Redis Body) : Bool := r.dead.any (deadOf id)

/-- The status `readTaskFull` reports: `ZSCORE` in inflight, `ZSCORE` in scheduled and the
`LRANGE` of `isDead`, each read in its own state and only if the one before found nothing. -/
def readStatus (id : String) (atInflight atScheduled atDead : Redis Body) : JobStatus :=
  if (atInflight.inflight id).isSome then .processing
  else if (atScheduled.scheduled id).isSome then .delayed
  else if isDead id atDead then .dlq
  else .pending

/-- `readTaskFull`. The two times are made up from the server's clock. -/
def readTaskFull (now : ℚ) (id : String) (atGet atInflight atScheduled atDead : Redis Body) :
    JobLookup :=
  match atGet.task id with
  | none => .notFound
  | some b =>
    match apiUnmarshal b with
    | none => .broken
    | some tm => .found
      { id := id
        queue := "default"
        task := tm.taskType
        status := readStatus id atInflight atScheduled atDead
        attempts := tm.attempts
        maxAttempts := tm.maxRetries
        createdAt := now - 300
        enqueuedAt := now - 240
        payload := tm.payload }

/-- The `DLQ` handler: entries that are no task are left out. -/
def dlq (now : ℚ) (r : Redis Body) : List DLQItem :=
  r.dead.filterMap fun body => (apiUnmarshal body).map fun tm =>
    { jobID := tm.id
      originalQueue := "default"
      task := tm.taskType
      attempts := tm.attempts
      lastError := "task failed"
      failedAt := now }

end

/-- `Depths`. A pipeline is no transaction, so the two `LLEN` have a state each, and the two
sorted sets (`ZCARD`) are given by the members they have at their command. `Stats` sends the
same four commands. -/
def depths {Body : Type} (atReady : Redis Body) (inflight scheduled : List String)
    (atDead : Redis Body) : QueueDepths where
  ready := atReady.immediate.length
  inflight := inflight.length
  scheduled := scheduled.length
  dead := atDead.dead.length

end ForgeQueue
