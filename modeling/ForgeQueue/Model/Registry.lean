import ForgeQueue.Model.Api

/-!
# The worker registry

`internal/worker/registry.go` and the readers of the registry in
`internal/httpapi/handlers.go`. A pool is a member of the set `forgequeue:workers`, has a
document `worker:<id>:meta` that lapses after 30 seconds, and a set `worker:<id>:leases` of
the tasks it works on that lapses with it. The dashboard reads the set, then each document,
then each pool's tasks, and removes what it finds without a document or without a lease.

`Floor` is the server together with the dashboard's calls, each at its next command: the
pools publish, the queue moves and several calls read at the same time. A key with a time
to live is kept with its deadline and is there up to and including it.
-/

namespace ForgeQueue

open Base

/-! ## Keys with a time to live -/

/-- A value and the time up to which it is there. -/
structure Timed (α : Type) where
  value : α
  deadline : ℚ

/-- What a read at `now` finds. -/
def Timed.read {α : Type} (now : ℚ) (key : Option (Timed α)) : Option α :=
  key.bind fun t => if now ≤ t.deadline then some t.value else none

/-- `workerMetaTTL`, in seconds. -/
def workerMetaTTL : ℚ := 30

/-! ## The registry keys -/

/-- `WorkerPool`, as far as it is published. -/
structure Pool where
  id : String
  hostname : String
  version : String
  startedAt : ℚ
  concurrencyLimit : ℕ
  deriving DecidableEq

/-- `workerMeta`, which the API reads back as `registeredWorker`. Times are instants of the
pool's clock; their text form is one the API parses. -/
structure WorkerMeta where
  id : String
  hostname : String
  version : String
  status : String
  startedAt : ℚ
  lastHeartbeat : ℚ
  concurrency : ℕ
  deriving DecidableEq

/-- The keys of the registry. -/
structure Registry where
  /-- `forgequeue:workers`. -/
  workers : Finset String
  /-- `worker:<id>:meta`. -/
  doc : String → Option (Timed WorkerMeta)
  /-- `worker:<id>:leases`. -/
  held : String → Option (Timed (Finset String))

/-- No pool has published. -/
def Registry.empty : Registry := ⟨∅, nothing, nothing⟩

/-- `EXPIRE`: a key that is not there stays away. -/
def expire {α : Type} (now : ℚ) (key : Option (Timed α)) : Option (Timed α) :=
  (Timed.read now key).map fun v => ⟨v, now + workerMetaTTL⟩

/-- A partial map with one key rewritten. -/
def setAt {α : Type} (m : String → Option α) (id : String) (v : Option α) :
    String → Option α :=
  fun x => if x = id then v else m x

/-- `publishMeta`, one transaction; `clock` is the pool's. -/
def publishMeta (now clock : ℚ) (p : Pool) (g : Registry) : Registry where
  workers := insert p.id g.workers
  doc := put g.doc p.id
    ⟨⟨p.id, p.hostname, p.version, "active", p.startedAt, clock, p.concurrencyLimit⟩,
      now + workerMetaTTL⟩
  held := setAt g.held p.id (expire now (g.held p.id))

/-- `deregister`. -/
def deregister (id : String) (g : Registry) : Registry where
  workers := g.workers.erase id
  doc := del g.doc id
  held := del g.held id

/-- `markLeases`: `SADD` and `EXPIRE`. Nothing is sent for no tasks. -/
def markLeases (now : ℚ) (id : String) (taskIDs : List String) (g : Registry) : Registry :=
  if taskIDs = [] then g
  else { g with
    held := put g.held id
      ⟨(Timed.read now (g.held id)).getD ∅ ∪ taskIDs.toFinset, now + workerMetaTTL⟩ }

/-- `SREM` of some tasks; a set that becomes empty is gone. -/
def dropHeld (now : ℚ) (id : String) (taskIDs : List String) (g : Registry) : Registry :=
  match g.held id with
  | none => g
  | some t =>
    if now ≤ t.deadline ∧ t.value \ taskIDs.toFinset ≠ ∅ then
      { g with held := put g.held id { t with value := t.value \ taskIDs.toFinset } }
    else { g with held := del g.held id }

/-- `clearLeases`. -/
def clearLeases (now : ℚ) (id : String) (taskIDs : List String) (g : Registry) : Registry :=
  if taskIDs = [] then g else dropHeld now id taskIDs g

/-! ## The dashboard's reads -/

/-- `Lease`; `acquiredAt` is made up from the API's clock. -/
structure LeaseView where
  jobID : String
  queue : String
  task : String
  leaseID : String
  acquiredAt : ℚ
  expiresAt : ℚ

/-- `Worker`; `leaseCount` and `jobsProcessing` are the number of leases. -/
structure WorkerView where
  id : String
  hostname : String
  version : String
  status : String
  startedAt : ℚ
  lastHeartbeatAt : ℚ
  concurrency : ℕ
  leases : List LeaseView

/-- The status of a document read at `clock`, the API's own. -/
def healthOf (clock : ℚ) (m : WorkerMeta) : String :=
  if clock - m.lastHeartbeat > 25 then "stale" else "healthy"

/-- The entry of a pool before its leases are read. -/
def WorkerMeta.view (clock : ℚ) (m : WorkerMeta) : WorkerView where
  id := m.id
  hostname := m.hostname
  version := m.version
  status := healthOf clock m
  startedAt := m.startedAt
  lastHeartbeatAt := m.lastHeartbeat
  concurrency := m.concurrency
  leases := []

/-- Where a `readWorkers` call is. `todo` are the pools still to read, `out` the entries so
far, `key` and `w` the pool being read and its entry, `tasks` its tasks still to read. -/
inductive ReadPc where
  /-- Before `SMEMBERS forgequeue:workers`. -/
  | start
  /-- Before `GET worker:<id>:meta` of the first of `todo`; the end if there is none. -/
  | doc (todo : List String) (out : List WorkerView)
  /-- Before `SREM forgequeue:workers id`. -/
  | srem (id : String) (todo : List String) (out : List WorkerView)
  /-- `readWorkerLeases`: before `SMEMBERS worker:<key>:leases`. -/
  | held (key : String) (w : WorkerView) (todo : List String) (out : List WorkerView)
  /-- Before `HGET queue:tasks:leases` of the first of `tasks`; the entry is complete if
  there is none. -/
  | lease (key : String) (tasks : List String) (w : WorkerView) (todo : List String)
      (out : List WorkerView)
  /-- Before `SREM worker:<key>:leases task`. -/
  | sremTask (task key : String) (tasks : List String) (w : WorkerView) (todo : List String)
      (out : List WorkerView)
  /-- Before `GET task:<task>`. -/
  | body (task leaseID key : String) (tasks : List String) (w : WorkerView)
      (todo : List String) (out : List WorkerView)
  /-- Before `ZSCORE queue:tasks:inflight task`. -/
  | score (task leaseID taskType key : String) (tasks : List String) (w : WorkerView)
      (todo : List String) (out : List WorkerView)

/-- The reply of a finished call. -/
def ReadPc.reply : ReadPc → Option (List WorkerView)
  | .doc [] out => some out
  | _ => none

/-- A reply of `SMEMBERS`: the members in some order, each once. -/
def Listing (s : Finset String) (ids : List String) : Prop :=
  ids.Nodup ∧ ids.toFinset = s

instance (s : Finset String) (ids : List String) : Decidable (Listing s ids) :=
  inferInstanceAs (Decidable (_ ∧ _))

section

variable {Body : Type} [BodyCodec Body]

/-- Send the next command of a `readWorkers` call at Redis time `now`; `clock` is the API's
clock and `ids` the order in which `SMEMBERS` lists. `none`: no reply of this form. -/
def readStep (now clock : ℚ) (ids : List String) (r : Redis Body) (g : Registry) :
    ReadPc → Option (Registry × ReadPc)
  | .start => if Listing g.workers ids then some (g, .doc ids []) else none
  | .doc [] _ => none
  | .doc (id :: todo) out =>
    match Timed.read now (g.doc id) with
    | none => some (g, .srem id todo out)
    | some m => some (g, .held id (m.view clock) todo out)
  | .srem id todo out => some ({ g with workers := g.workers.erase id }, .doc todo out)
  | .held key w todo out =>
    if Listing ((Timed.read now (g.held key)).getD ∅) ids then
      some (g, .lease key ids w todo out)
    else none
  | .lease _ [] w todo out => some (g, .doc todo (out ++ [w]))
  | .lease key (task :: tasks) w todo out =>
    match r.leases task with
    | none => some (g, .sremTask task key tasks w todo out)
    | some leaseID => some (g, .body task leaseID key tasks w todo out)
  | .sremTask task key tasks w todo out =>
    some (dropHeld now key [task] g, .lease key tasks w todo out)
  | .body task leaseID key tasks w todo out =>
    let taskType := (((r.task task).bind apiUnmarshal).map (·.taskType)).getD ""
    some (g, .score task leaseID taskType key tasks w todo out)
  | .score task leaseID taskType key tasks w todo out =>
    let expires := match r.inflight task with
      | some score => (score.floor : ℚ)
      | none => clock + 10
    some (g, .lease key tasks
      { w with leases := w.leases ++
          [⟨task, "default", taskType, leaseID, clock - 10, expires⟩] } todo out)

/-! ## Everything at once -/

/-- The server, its registry, the calls in progress by number, and the latest time. -/
structure Floor (Body : Type) where
  redis : Redis Body
  registry : Registry
  calls : ℕ → Option ReadPc
  time : ℚ

/-- One step of one party. -/
inductive FloorAct (Body : Type) where
  /-- `registrationLoop`. -/
  | publish (p : Pool) (clock : ℚ)
  /-- The end of `Stop`. -/
  | deregister (id : String)
  /-- `workerLoop`, after a claim and after its outcomes. -/
  | mark (id : String) (taskIDs : List String)
  | clear (id : String) (taskIDs : List String)
  /-- A command of the engine. -/
  | engine (op : Op Body)
  /-- A `readWorkers` call comes in under a new number. -/
  | request (k : ℕ)
  /-- Call `k` sends its next command. -/
  | next (k : ℕ) (clock : ℚ) (ids : List String)

/-- A step with the Redis time at which it runs. -/
structure FloorCall (Body : Type) where
  now : ℚ
  act : FloorAct Body

/-- One step. A finished call sends nothing more. -/
def Floor.step (s : Floor Body) (c : FloorCall Body) : Option (Floor Body) :=
  match c.act with
  | .publish p clock =>
    some { s with registry := publishMeta c.now clock p s.registry, time := c.now }
  | .deregister id =>
    some { s with registry := ForgeQueue.deregister id s.registry, time := c.now }
  | .mark id taskIDs =>
    some { s with registry := markLeases c.now id taskIDs s.registry, time := c.now }
  | .clear id taskIDs =>
    some { s with registry := clearLeases c.now id taskIDs s.registry, time := c.now }
  | .engine op => some { s with redis := s.redis.after c.now op, time := c.now }
  | .request k =>
    if (s.calls k).isSome then none
    else some { s with calls := put s.calls k .start, time := c.now }
  | .next k clock ids =>
    (s.calls k).bind fun pc =>
      (readStep c.now clock ids s.redis s.registry pc).map fun next =>
        { s with registry := next.1, calls := put s.calls k next.2, time := c.now }

/-- Nothing has happened. -/
def Floor.init : Floor Body := ⟨.empty, .empty, nothing, 0⟩

/-- Runs of the floor. -/
abbrev FloorRun (ok : Floor Body → FloorCall Body → Prop) :
    Floor Body → List (FloorCall Body) → Floor Body → Prop :=
  Run Floor.step ok

end

end ForgeQueue
