import ForgeQueue.Model.Engine

/-!
# The operator's API

`internal/httpapi/handlers.go`: the actions an operator takes on tasks. None of them is
a script: `requeue` and `deleteTask` read the dead list, remove what they found there one
entry at a time, look at the body and end in a transaction. The functions below are the
handlers run without interruption; `requeueStep` is `requeue` one Redis command at a
time.
-/

namespace ForgeQueue

open Base

/-- The replies of the handlers, by status code. -/
inductive Response where
  /-- 204. -/
  | noContent
  /-- 404 with its message. -/
  | notFound (msg : String)
  /-- 200 with the number of purged entries. -/
  | purged (n : ℕ)
  deriving DecidableEq

section

variable {Body : Type} [BodyCodec Body]

/-- The dead-list entry `b` is read as a body of task `id` (as `isDead` and
`takeDead` read it). -/
def deadOf (id : String) (b : Body) : Bool :=
  decide ((apiUnmarshal b).map (·.id) = some id)

/-- The entries of the dead list that `takeDead` removes. -/
def matching (id : String) (bodies : List Body) : List Body := bodies.filter (deadOf id)

/-- What `requeue` writes back for `resetAttempts`; `none` when the body is gone or is
no task. -/
def resetBody (id : String) (r : Redis Body) : Option Body :=
  (r.task id).bind fun raw =>
    (apiUnmarshal raw).map fun tm => apiMarshal { tm with attempts := 0 }

/-- `PurgeQueue`. The ids are read first; nothing runs in between here. -/
def purgeQueue (r : Redis Body) : Redis Body × Response :=
  ({ r with
      immediate := []
      task := fun id => if id ∈ r.immediate then none else r.task id },
    .purged r.immediate.length)

/-- `PurgeDLQ`. -/
def purgeDLQ (r : Redis Body) : Redis Body × Response :=
  ({ r with
      dead := []
      task := fun id => if r.dead.any (deadOf id) then none else r.task id },
    .purged r.dead.length)

variable [DecidableEq Body]

/-- `LREM queue:tasks:dead 1 <body>`. -/
def lrem (body : Body) (r : Redis Body) : Redis Body :=
  { r with dead := r.dead.erase body }

/-- `takeDead`: every match goes, the first one is returned. -/
def takeDead (id : String) (r : Redis Body) : Redis Body × Option Body :=
  ((matching id r.dead).foldl (fun r body => lrem body r) r, (matching id r.dead).head?)

/-- The second half of `requeue`, once `task:<id>` is known to exist. -/
def requeueBody (id : String) (resetAttempts : Bool) (r : Redis Body) : Redis Body :=
  if resetAttempts then
    match resetBody id r with
    | some body => requeueTx id { r with task := put r.task id body }
    | none => requeueTx id r
  else requeueTx id r

/-- `requeue`. -/
def requeue (id : String) (resetAttempts : Bool) (r : Redis Body) : Redis Body × Bool :=
  let (r, deadBody) := takeDead id r
  match r.task id with
  | some _ => (requeueBody id resetAttempts r, true)
  | none =>
    match deadBody with
    | none => (r, false)
    | some body => (requeueBody id resetAttempts { r with task := put r.task id body }, true)

/-- `deleteTask`. -/
def deleteTask (id : String) (r : Redis Body) : Redis Body := deleteTx id (takeDead id r).1

/-- A handler that calls `requeue`; `noun` is how its error names the task. -/
def requeueHandler (noun id : String) (resetAttempts : Bool) (r : Redis Body) :
    Redis Body × Response :=
  match requeue id resetAttempts r with
  | (r, true) => (r, .noContent)
  | (r, false) => (r, .notFound (noun ++ " " ++ id ++ " not found"))

def retryJob (id : String) : Redis Body → Redis Body × Response := requeueHandler "job" id true

def requeueJob (id : String) : Redis Body → Redis Body × Response := requeueHandler "job" id false

def retryDLQ (id : String) : Redis Body → Redis Body × Response :=
  requeueHandler "dlq entry" id true

/-- A handler that calls `deleteTask`. -/
def deleteHandler (id : String) (r : Redis Body) : Redis Body × Response :=
  (deleteTask id r, .noContent)

def deleteJob (id : String) : Redis Body → Redis Body × Response := deleteHandler id

def deleteDLQ (id : String) : Redis Body → Redis Body × Response := deleteHandler id

def cancelDelayed (id : String) : Redis Body → Redis Body × Response := deleteHandler id

/-- The operator's actions on tasks. -/
inductive ApiOp where
  | deleteJob (id : String)
  | cancelDelayed (id : String)
  | deleteDLQ (id : String)
  | purgeQueue
  | purgeDLQ
  | retryJob (id : String)
  | requeueJob (id : String)
  | retryDLQ (id : String)

def ApiOp.run (r : Redis Body) : ApiOp → Redis Body × Response
  | .deleteJob id => ForgeQueue.deleteJob id r
  | .cancelDelayed id => ForgeQueue.cancelDelayed id r
  | .deleteDLQ id => ForgeQueue.deleteDLQ id r
  | .purgeQueue => ForgeQueue.purgeQueue r
  | .purgeDLQ => ForgeQueue.purgeDLQ r
  | .retryJob id => ForgeQueue.retryJob id r
  | .requeueJob id => ForgeQueue.requeueJob id r
  | .retryDLQ id => ForgeQueue.retryDLQ id r

end

/-! ## `requeue` when commands fail -/

/-- Why `requeue` returned an error. -/
inductive RedisError where
  | commandFailed
  deriving DecidableEq

section

variable {Body : Type} [BodyCodec Body] [DecidableEq Body]

/-- The removals of `takeDead`, from command `i` on: where they end, or `none` when one of
them failed. -/
def removeEach (fails : ℕ → Bool) : ℕ → List Body → Redis Body → Redis Body × Option ℕ
  | i, [], r => (r, some i)
  | i, body :: todo, r =>
    if fails i then (r, none) else removeEach fails (i + 1) todo (lrem body r)

/-- The transaction as command `i`. -/
def commitUnder (fails : ℕ → Bool) (i : ℕ) (id : String) (r : Redis Body) :
    Redis Body × Except RedisError Bool :=
  if fails i then (r, .error .commandFailed) else (requeueTx id r, .ok true)

/-- The second half of `requeue` from command `i` on. Errors of the reset are ignored. -/
def requeueBodyUnder (fails : ℕ → Bool) (i : ℕ) (id : String) (resetAttempts : Bool)
    (r : Redis Body) : Redis Body × Except RedisError Bool :=
  if resetAttempts then
    if fails i then commitUnder fails (i + 1) id r
    else
      match resetBody id r with
      | none => commitUnder fails (i + 1) id r
      | some body =>
        if fails (i + 1) then commitUnder fails (i + 2) id r
        else commitUnder fails (i + 2) id { r with task := put r.task id body }
  else commitUnder fails i id r

/-- `requeue`, where `fails i` says that the `i`-th command it sends fails: it has no effect
and returns an error other than `redis.Nil`. Only `redis.Nil` counts as a missing body. -/
def requeueUnder (fails : ℕ → Bool) (id : String) (resetAttempts : Bool) (r : Redis Body) :
    Redis Body × Except RedisError Bool :=
  if fails 0 then (r, .error .commandFailed)
  else
    match removeEach fails 1 (matching id r.dead) r with
    | (r', none) => (r', .error .commandFailed)
    | (r', some i) =>
      if fails i = false ∧ r'.task id = none then
        match (matching id r.dead).head? with
        | none => (r', .ok false)
        | some body =>
          if fails (i + 1) then (r', .error .commandFailed)
          else
            requeueBodyUnder fails (i + 2) id resetAttempts
              { r' with task := put r'.task id body }
      else requeueBodyUnder fails (i + 1) id resetAttempts r'

omit [BodyCodec Body] in
theorem removeEach_never (todo : List Body) :
    ∀ (i : ℕ) (r : Redis Body), removeEach (fun _ => false) i todo r =
      (todo.foldl (fun r body => lrem body r) r, some (i + todo.length)) := by
  induction todo with
  | nil => exact fun _ _ => rfl
  | cons body todo ih =>
    intro i r
    rw [removeEach, if_neg Bool.false_ne_true, ih, List.foldl_cons, List.length_cons]
    congr 2
    omega

/-- When nothing fails this is `requeue`. -/
theorem requeueUnder_never (id : String) (resetAttempts : Bool) (r : Redis Body) :
    requeueUnder (fun _ => false) id resetAttempts r =
      ((requeue id resetAttempts r).1, .ok (requeue id resetAttempts r).2) := by
  have hbody : ∀ i (r : Redis Body), requeueBodyUnder (fun _ => false) i id resetAttempts r =
      (requeueBody id resetAttempts r, .ok true) := by
    intro i r
    cases resetAttempts with
    | false => rfl
    | true =>
      simp only [requeueBodyUnder, requeueBody, commitUnder, if_true]
      cases resetBody id r <;> rfl
  simp only [requeueUnder, requeue, takeDead, removeEach_never, Bool.false_eq_true, if_false,
    true_and, hbody]
  cases htask : ((matching id r.dead).foldl (fun r body => lrem body r) r).task id with
  | some body => simp
  | none => cases (matching id r.dead).head? <;> simp

end

/-! ## `requeue`, command by command -/

/-- Where a `requeue` call stands; each constructor names the command sent next.
`written` says that the call has written the body. -/
inductive RequeuePc (Body : Type) where
  /-- `LRANGE` of the dead list. -/
  | range
  /-- `LREM` of each match. -/
  | remove (todo : List Body) (deadBody : Option Body)
  /-- `GET task:<id>`. -/
  | look (deadBody : Option Body)
  /-- `SET task:<id>` to the dead entry. -/
  | restore (body : Body)
  /-- `GET task:<id>` for the reset. -/
  | read (written : Bool)
  /-- `SET task:<id>` to the reset body. -/
  | reset (body : Body) (written : Bool)
  /-- The transaction. -/
  | commit (written : Bool)
  | done (ok : Bool)

section

variable {Body : Type}

/-- `LREM` next, or the look at the body when nothing is left to remove. -/
def RequeuePc.afterRange (todo : List Body) (deadBody : Option Body) : RequeuePc Body :=
  match todo with
  | [] => .look deadBody
  | _ :: _ => .remove todo deadBody

/-- What follows once the body exists. -/
def RequeuePc.afterLook (resetAttempts written : Bool) : RequeuePc Body :=
  if resetAttempts then .read written else .commit written

variable [BodyCodec Body] [DecidableEq Body]

/-- The next command of a `requeue` call. -/
def requeueStep (id : String) (resetAttempts : Bool) (r : Redis Body) :
    RequeuePc Body → Redis Body × RequeuePc Body
  | .range => (r, .afterRange (matching id r.dead) (matching id r.dead).head?)
  | .remove [] deadBody => (r, .look deadBody)
  | .remove (body :: todo) deadBody => (lrem body r, .afterRange todo deadBody)
  | .look deadBody =>
    match r.task id with
    | some _ => (r, .afterLook resetAttempts false)
    | none =>
      match deadBody with
      | none => (r, .done false)
      | some body => (r, .restore body)
  | .restore body =>
    ({ r with task := put r.task id body }, .afterLook resetAttempts true)
  | .read written =>
    match resetBody id r with
    | none => (r, .commit written)
    | some body => (r, .reset body written)
  | .reset body _ => ({ r with task := put r.task id body }, .commit true)
  | .commit _ => (requeueTx id r, .done true)
  | .done ok => (r, .done ok)

end

/-! ## The scripts that can fall into its gaps -/

/-- A call of a worker's script, with its arguments. -/
inductive Script where
  | claimBatch (leaseIDs : List String) (expiry : ℚ)
  | heartbeat (now leaseDuration : ℚ) (taskID leaseID : String)
  | ackBatch (pairs : List (String × String))
  | requeueOrDead (now base cap : ℚ) (taskID leaseID : String)
  | promoteTask (now : ℚ) (taskID : String)

/-- What a script answers. -/
inductive ScriptReply (Body : Type) where
  | claims (claims : List (TaskClaim Body))
  | flag (b : Bool)
  | ids (ids : List String)
  | status (status : Option RequeueStatus)

/-- Run a script. -/
def Script.run {Body : Type} [BodyCodec Body] (r : Redis Body) :
    Script → Redis Body × ScriptReply Body
  | .claimBatch leaseIDs expiry =>
    ((ForgeQueue.claimBatch leaseIDs expiry r).1,
      .claims (ForgeQueue.claimBatch leaseIDs expiry r).2)
  | .heartbeat now d taskID leaseID =>
    ((ForgeQueue.heartbeat now d taskID leaseID r).1,
      .flag (ForgeQueue.heartbeat now d taskID leaseID r).2)
  | .ackBatch pairs => ((ForgeQueue.ackBatch pairs r).1, .ids (ForgeQueue.ackBatch pairs r).2)
  | .requeueOrDead now base cap taskID leaseID =>
    ((ForgeQueue.requeueOrDead now base cap taskID leaseID r).1,
      .status (ForgeQueue.requeueOrDead now base cap taskID leaseID r).2)
  | .promoteTask now taskID =>
    ((ForgeQueue.promoteTask now taskID r).1, .flag (ForgeQueue.promoteTask now taskID r).2)

end ForgeQueue
