import Mathlib.Data.List.Nodup
import Mathlib.Data.Int.Notation

/-!
# The throughput series

`internal/httpapi/handlers.go`, `genSeries`: the chart behind `GET /api/metrics/throughput`.
The writers add a task to `metrics:enqueued`, `metrics:completed` or `metrics:failed` under
the second it happened in, and the series counts the entries bucket by bucket. Instants and
durations are in nanoseconds. The server is read once here: nothing is written while the
series is made, and no command fails.
-/

namespace ForgeQueue

/-- The sorted sets of the series. -/
inductive Metric where
  /-- `metrics:enqueued`. -/
  | enqueued
  /-- `metrics:completed`. -/
  | completed
  /-- `metrics:failed`. -/
  | failed
  deriving DecidableEq

/-- A sorted set: each member once, with its score, a second. -/
structure MetricSet where
  entries : List (String × ℤ)
  distinct : (entries.map Prod.fst).Nodup

/-- `ZCOUNT key min max`, both ends included. -/
def MetricSet.zcount (s : MetricSet) (min max : ℤ) : ℕ :=
  s.entries.countP fun e => min ≤ e.2 ∧ e.2 ≤ max

/-- What `genSeries` reads of the server: the sets, and how long the queue's own structures
are. -/
structure MetricStore where
  sets : Metric → MetricSet
  /-- `LLEN queue:tasks:dead`. -/
  dead : ℕ
  /-- `LLEN queue:tasks:immediate`. -/
  immediate : ℕ
  /-- `ZCARD queue:tasks:inflight`. -/
  inflight : ℕ
  /-- `ZCARD queue:tasks:scheduled`. -/
  scheduled : ℕ

/-- `ThroughputPoint`. The time is the instant that is rendered as text. -/
structure ThroughputPoint where
  time : ℤ
  enqueued : ℤ
  completed : ℤ
  failed : ℤ
  depth : ℤ
  latencyMs : ℤ
  execMs : ℤ
  retries : ℤ
  dlq : ℤ
  workers : ℤ
  leaseExpirations : ℤ
  deriving DecidableEq

def second : ℤ := 1000000000

def minute : ℤ := 60 * second

def hour : ℤ := 60 * minute

/-- `span` and `n` for a value of `range`. -/
def seriesRange (rangeQ : String) : ℤ × ℕ :=
  match rangeQ with
  | "5m" => (5 * minute, 20)
  | "15m" => (15 * minute, 30)
  | "1h" => (1 * hour, 30)
  | "6h" => (6 * hour, 36)
  | "24h" => (24 * hour, 48)
  | "7d" => (7 * 24 * hour, 56)
  | _ => (15 * minute, 30)

/-- `Unix()` of an instant: whole seconds, rounded down. -/
def unixSeconds (instant : ℤ) : ℤ := instant / second

/-- `bucketStart`, with the length `step` of a bucket. -/
def bucketStart (now span step : ℤ) (i : ℕ) : ℤ := now + (-span + i * step)

/-- The bounds the counts of bucket `i` are asked for. -/
def bucketBounds (now span step : ℤ) (i : ℕ) : ℤ × ℤ :=
  (unixSeconds (bucketStart now span step i), unixSeconds (bucketStart now span step i + step))

/-- Point `i` of the series. -/
def seriesPoint (now span step : ℤ) (store : MetricStore) (i : ℕ) : ThroughputPoint :=
  let bounds := bucketBounds now span step i
  let enq : ℤ := (store.sets .enqueued).zcount bounds.1 bounds.2
  let comp : ℤ := (store.sets .completed).zcount bounds.1 bounds.2
  let fail : ℤ := (store.sets .failed).zcount bounds.1 bounds.2
  { time := bucketStart now span step i
    enqueued := if enq < 0 then 0 else enq
    completed := if comp < 0 then 0 else comp
    failed := if fail < 0 then 0 else fail
    depth := store.immediate + store.inflight + store.scheduled
    latencyMs := 40
    execMs := 380
    retries := 0
    dlq := store.dead
    workers := 3
    leaseExpirations := 0 }

/-- `genSeries`. -/
def genSeries (now : ℤ) (rangeQ : String) (store : MetricStore) : List ThroughputPoint :=
  let span := (seriesRange rangeQ).1
  let n := (seriesRange rangeQ).2
  let step := span / n
  (List.range n).map (seriesPoint now span step store)

/-- `Throughput`: an empty `range` stands for fifteen minutes. -/
def throughput (now : ℤ) (rangeQ : String) (store : MetricStore) : List ThroughputPoint :=
  genSeries now (if rangeQ = "" then "15m" else rangeQ) store

/-- The count of a point that comes from a set. -/
def ThroughputPoint.count (p : ThroughputPoint) : Metric → ℤ
  | .enqueued => p.enqueued
  | .completed => p.completed
  | .failed => p.failed

theorem seriesPoint_count (now span step : ℤ) (store : MetricStore) (i : ℕ) (m : Metric) :
    (seriesPoint now span step store i).count m =
      (store.sets m).zcount (bucketBounds now span step i).1 (bucketBounds now span step i).2 := by
  have hcount : ∀ k : ℕ, (if (k : ℤ) < 0 then 0 else (k : ℤ)) = k :=
    fun k => if_neg (Int.not_lt.mpr (Int.natCast_nonneg k))
  cases m with
  | enqueued => exact hcount _
  | completed => exact hcount _
  | failed => exact hcount _

end ForgeQueue
