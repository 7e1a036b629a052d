import ForgeQueue.Model.Engine
import Mathlib.Data.List.Sort
import Mathlib.Data.Prod.Lex
import Mathlib.Data.String.Basic

/-!
# The durable journal

`internal/durable`: the table `queue_tasks` and the statements the components run on
it, each atomic. A row is inserted once by the gateway and updated in place
afterwards; `id` and `created_at` never change. `payload` is the exact body, so the
reconciler writes back what the gateway wrote.
-/

namespace ForgeQueue

/-- `durable.State`. -/
inductive TaskState where
  | enqueued
  | processing
  | retrying
  | succeeded
  | dead
  deriving DecidableEq

def TaskState.terminal : TaskState → Bool
  | .succeeded | .dead => true
  | _ => false

/-- A position in the order `(created_at, id)`. -/
abbrev Key := ℚ ×ₗ String

/-- `Cursor{}`: Go's zero time (the first of January of the year 1) and the empty
id. -/
def zeroCursor : Key := toLex (-62135596800, "")

/-- A row of `queue_tasks`. `scheduleAt = none` is `NULL`. -/
structure Row (Body : Type) where
  id : String
  taskType : String
  payload : Body
  maxRetries : Int
  attempts : Int
  state : TaskState
  scheduleAt : Option ℚ
  redisPending : Bool
  createdAt : ℚ

variable {Body : Type}

def Row.key (row : Row Body) : Key := toLex (row.createdAt, row.id)

/-- `Enqueue`: insert, or overwrite everything but `created_at`. -/
def journalEnqueue (now : ℚ) (t : Row Body) : List (Row Body) → List (Row Body)
  | [] => [{ t with redisPending := true, createdAt := now }]
  | row :: rows =>
    if row.id = t.id then
      { t with redisPending := true, createdAt := row.createdAt } :: rows
    else row :: journalEnqueue now t rows

/-- `setState`: `attempts < 0` leaves the counter, `none` leaves the due time. -/
def Row.setState (row : Row Body) (state : TaskState) (attempts : Int)
    (scheduleAt : Option ℚ) : Row Body :=
  { row with
    state := state
    attempts := if 0 ≤ attempts then attempts else row.attempts
    scheduleAt := scheduleAt <|> row.scheduleAt
    redisPending := false }

/-- An `UPDATE … WHERE id = $1`. -/
def journalUpdate (id : String) (f : Row Body → Row Body) (rows : List (Row Body)) :
    List (Row Body) :=
  rows.map fun row => if row.id = id then f row else row

def journalProcessing (id : String) : List (Row Body) → List (Row Body) :=
  journalUpdate id (·.setState .processing (-1) none)

def journalSucceeded (id : String) : List (Row Body) → List (Row Body) :=
  journalUpdate id (·.setState .succeeded (-1) none)

def journalDead (id : String) (attempts : Int) : List (Row Body) → List (Row Body) :=
  journalUpdate id (·.setState .dead attempts none)

def journalRetrying (id : String) (attempts : Int) (scheduleAt : ℚ) :
    List (Row Body) → List (Row Body) :=
  journalUpdate id (·.setState .retrying attempts (some scheduleAt))

/-- `Materialized`. -/
def journalMaterialized (id : String) : List (Row Body) → List (Row Body) :=
  journalUpdate id fun row => { row with redisPending := false }

/-- `Active`: the first `limit` non-terminal rows strictly after the cursor. -/
def active (after : Key) (limit : ℕ) (rows : List (Row Body)) : List (Row Body) :=
  ((rows.filter fun row => !row.state.terminal && decide (after < row.key)).insertionSort
    fun r s => r.key ≤ s.key).take limit

/-- `reconcilePageSize`. -/
def reconcilePageSize : ℕ := 1000

/-- The score argument of `materialize`: a row found `processing` is due now, another
one at its due time; whole seconds. `none` is a due time that is Go's zero time: the column
is NULL then, and a stored zero time would count the same. -/
def materializeScore (clock : ℚ) (row : Row Body) : Option ℚ :=
  match row.state with
  | .processing => some clock.floor
  | .enqueued | .retrying => row.scheduleAt.map fun t => (t.floor : ℚ)
  | _ => none

/-- The record the gateway journals. Its due time is `targetTime` itself, not the score. -/
def routeRow [BodyCodec Body] (clock : ℚ) (a : RouteArgs) : Row Body where
  id := a.id
  taskType := a.taskType
  payload := marshal (routeData a)
  maxRetries := a.maxRetries.toInt
  attempts := 0
  state := .enqueued
  scheduleAt := if 0 < a.delaySeconds then some ((targetTime clock a).toInt : ℚ) else none
  redisPending := true
  createdAt := 0

end ForgeQueue
