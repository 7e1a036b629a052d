import ForgeQueue.Base.Keyed
import ForgeQueue.Model.Task

/-!
# The Redis state and the scripts that move tasks through it

`Redis` is the hot store: the seven keys the queue lives in. Each definition
below is one atomic unit of the server, a Lua script or a `MULTI` transaction,
under the name of the Go function that runs it, and returns the new state
together with the reply.

Clock readings (`now`) are Redis's `TIME` in seconds. Lists push and pop at the
head (`LPUSH`, `LPOP`). A script that raises keeps the writes it made before
(`none` as its reply).
-/

namespace ForgeQueue

open Base

/-- The keys of the queue. Sorted sets and hashes are partial maps. -/
structure Redis (Body : Type) where
  /-- `queue:tasks:immediate`, the ready list. -/
  immediate : List String
  /-- `queue:tasks:inflight`, lease expiry by task id. -/
  inflight : String → Option ℚ
  /-- `queue:tasks:leases`, lease token by task id. -/
  leases : String → Option String
  /-- `queue:tasks:scheduled`, due time by task id. -/
  scheduled : String → Option ℚ
  /-- `queue:tasks:dead`, full bodies. -/
  dead : List Body
  /-- `queue:paused` exists. -/
  paused : Bool
  /-- `task:<id>`. -/
  task : String → Option Body

variable {Body : Type}

/-- A freshly started or wiped server. -/
def Redis.empty : Redis Body where
  immediate := []
  inflight := nothing
  leases := nothing
  scheduled := nothing
  dead := []
  paused := false
  task := nothing

/-- The id is in one of the three hot structures. -/
def Redis.Live (r : Redis Body) (id : String) : Prop :=
  id ∈ r.immediate ∨ (r.inflight id).isSome ∨ (r.scheduled id).isSome

instance (r : Redis Body) (id : String) : Decidable (r.Live id) :=
  inferInstanceAs (Decidable (_ ∨ _ ∨ _))

/-! ## `claimBatch` -/

/-- The claim script's loop over the lease tokens: pop an id, put it in flight
under the token, stop at an empty list. Returns the popped ids in order. -/
def claimLoop (expiry : ℚ) : List String → Redis Body → Redis Body × List String
  | [], r => (r, [])
  | leaseID :: rest, r =>
    match r.immediate with
    | [] => (r, [])
    | taskID :: ready =>
      let next := claimLoop expiry rest { r with
        immediate := ready
        inflight := put r.inflight taskID expiry
        leases := put r.leases taskID leaseID }
      (next.1, taskID :: next.2)

/-- `leaseExpiry`, which `claimBatch` computes from the worker's own clock before it sends
the script. -/
def leaseExpiry (clock leaseDuration : ℚ) : ℚ := clock + leaseDuration

/-- `TaskClaim`: a lease together with the body read by the same script;
`none` when `task:<id>` was missing. -/
structure TaskClaim (Body : Type) where
  taskID : String
  leaseID : String
  body : Option Body

/-- `claimBatch`: one token per slot of the batch, so the batch size is
`leaseIDs.length`. A paused queue hands out nothing. The bodies are read in a
second loop and Go pairs position `i` of the reply with token `i`. -/
def claimBatch (leaseIDs : List String) (expiry : ℚ) (r : Redis Body) :
    Redis Body × List (TaskClaim Body) :=
  if r.paused then (r, [])
  else
    let popped := claimLoop expiry leaseIDs r
    (popped.1, List.zipWith (fun taskID leaseID => ⟨taskID, leaseID, popped.1.task taskID⟩)
      popped.2 leaseIDs)

/-! ## `heartbeat` and `ackBatch` -/

/-- `heartbeat`: renew the lease by Redis's clock if the presented token is still
the current one. -/
def heartbeat (now leaseDuration : ℚ) (taskID leaseID : String) (r : Redis Body) :
    Redis Body × Bool :=
  if r.leases taskID = some leaseID then
    ({ r with inflight := put r.inflight taskID (now + leaseDuration) }, true)
  else (r, false)

/-- Forget the lease of a task: `ZREM` from inflight, `HDEL` from leases. -/
def Redis.release (r : Redis Body) (taskID : String) : Redis Body :=
  { r with inflight := del r.inflight taskID, leases := del r.leases taskID }

@[simp] theorem release_immediate (r : Redis Body) (id : String) :
    (r.release id).immediate = r.immediate := rfl

@[simp] theorem release_scheduled (r : Redis Body) (id : String) :
    (r.release id).scheduled = r.scheduled := rfl

@[simp] theorem release_dead (r : Redis Body) (id : String) :
    (r.release id).dead = r.dead := rfl

@[simp] theorem release_task (r : Redis Body) (id : String) :
    (r.release id).task = r.task := rfl

@[simp] theorem release_inflight (r : Redis Body) (id : String) :
    (r.release id).inflight = del r.inflight id := rfl

@[simp] theorem release_leases (r : Redis Body) (id : String) :
    (r.release id).leases = del r.leases id := rfl

/-- `ackBatch`: each pair is fenced on its own; an acknowledged task loses its
lease and its body. Returns the acknowledged ids. -/
def ackBatch : List (String × String) → Redis Body → Redis Body × List String
  | [], r => (r, [])
  | (taskID, leaseID) :: rest, r =>
    if r.leases taskID = some leaseID then
      let next := ackBatch rest { r.release taskID with task := del r.task taskID }
      (next.1, taskID :: next.2)
    else ackBatch rest r

/-! ## `requeueOrDead` -/

/-- The statuses `requeueOrDead` returns. -/
inductive RequeueStatus where
  | fenced
  | gone
  | renewed
  | noBody
  | dead
  | scheduled
  deriving DecidableEq

/-- The script's first half. An owner (`leaseID ≠ ""`) is fenced like an ACK;
recovery (`""`) re-checks the expiry. Either way the lease is then released;
`none` means the lease may be released. -/
def requeueGuard (now : ℚ) (taskID leaseID : String) (r : Redis Body) :
    Option RequeueStatus :=
  if leaseID ≠ "" then
    if r.leases taskID = some leaseID then none else some .fenced
  else
    match r.inflight taskID with
    | none => some .gone
    | some expiry => if now < expiry then some .renewed else none

/-- The doubling loop `while i <= attempts do delay = delay * 2`, run `n` times. -/
def doubling : ℕ → ℚ → ℚ
  | 0, delay => delay
  | n + 1, delay => doubling n (delay * 2)

/-- The script's backoff delay, in exact numbers. The loop variable counts `2, 3, …` up to
`attempts`, so it turns `⌊attempts⌋ - 1` times; the cap is applied at the end. On Lua's
doubles the loop comes to this for `attempts` below `2 ^ 53`, and does not end for others
(`LuaNumbers`). -/
def scriptBackoff (attempts base cap : ℚ) : ℚ :=
  let delay := doubling (attempts.floor - 1).toNat base
  if delay > cap then cap else delay

variable [BodyCodec Body]

/-- The script's second half, after the lease was released: load the body, bump
`attempts`, rewrite the body, then dead-letter it or schedule a retry. A body
that is no table goes to the dead list as it is. Counts are exact numbers here;
`retryOrBuryLua` is the script on doubles, which does the same up to `2 ^ 53`. -/
def retryOrBury (now base cap : ℚ) (taskID : String) (r : Redis Body) :
    Redis Body × Option RequeueStatus :=
  match r.task taskID with
  | none => (r, some .noBody)
  | some body =>
    match cjsonDecode body with
    | none => ({ r with dead := body :: r.dead }, some .dead)
    | some task =>
      if task.isTable = false then ({ r with dead := body :: r.dead }, some .dead)
      else
        match luaArith Body (task.field "attempts") with
        | none => (r, none)
        | some counter =>
          let attempts := counter + 1
          let task := task.setField "attempts" (.num attempts)
          match (cjsonEncode task : Option Body) with
          | none => (r, none)
          | some newBody =>
            let r := { r with task := put r.task taskID newBody }
            match luaCompare (task.field "max_retries") with
            | none => (r, none)
            | some maxRetries =>
              if 0 < maxRetries ∧ maxRetries ≤ attempts then
                ({ r with dead := newBody :: r.dead }, some .dead)
              else
                let retryAt := now + scriptBackoff attempts base cap
                ({ r with scheduled := put r.scheduled taskID retryAt }, some .scheduled)

/-- `requeueOrDead`. The reply is `none` when the script raised, which can only
happen after the lease was released. -/
def requeueOrDead (now base cap : ℚ) (taskID leaseID : String) (r : Redis Body) :
    Redis Body × Option RequeueStatus :=
  match requeueGuard now taskID leaseID r with
  | some status => (r, some status)
  | none => retryOrBury now base cap taskID (r.release taskID)

/-! ## `promoteTask`, `materialize` and the API transactions -/

/-- `promoteTask`: move a due task from the scheduled set to the ready list. -/
def promoteTask (now : ℚ) (taskID : String) (r : Redis Body) : Redis Body × Bool :=
  match r.scheduled taskID with
  | none => (r, false)
  | some score =>
    if now < score then (r, false)
    else ({ r with scheduled := del r.scheduled taskID
                   immediate := taskID :: r.immediate }, true)

/-- `materializeScript`: write a journalled task into Redis unless it is in one of
the hot structures. `score = none` is the empty string. -/
def materializeScript (taskID : String) (score : Option ℚ) (payload : Body)
    (r : Redis Body) : Redis Body × Bool :=
  if r.Live taskID then (r, false)
  else
    let r := { r with task := put r.task taskID payload }
    match score with
    | none => ({ r with immediate := taskID :: r.immediate }, true)
    | some s => ({ r with scheduled := put r.scheduled taskID s }, true)

/-- The transaction that ends the API's `requeue`. -/
def requeueTx (id : String) (r : Redis Body) : Redis Body :=
  { r.release id with
    scheduled := del r.scheduled id
    immediate := id :: r.immediate }

/-- The transaction that ends the API's `deleteTask`. -/
def deleteTx (id : String) (r : Redis Body) : Redis Body :=
  { r.release id with
    scheduled := del r.scheduled id
    immediate := r.immediate.filter (· ≠ id)
    task := del r.task id }

end ForgeQueue
