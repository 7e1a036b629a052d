import ForgeQueue.Model.Api

/-!
# Operator requests among everything else

No handler of `internal/httpapi/handlers.go` is a script. Each of them sends its Redis
commands one at a time, and any number of requests are served at once, beside the
gateway, the workers and the reconcilers. A `Desk` is the server with the requests that
were received so far; a step is one command of one request, or one command or script of
somebody else.
-/

namespace ForgeQueue

open Base

/-! ## The transactions -/

section

variable {Body : Type}

/-- The transaction that ends `PurgeQueue`; `ids` is what `LRANGE` returned. -/
def purgeQueueTx (ids : List String) (r : Redis Body) : Redis Body :=
  { r with
    immediate := []
    task := fun id => if id ∈ ids then none else r.task id }

/-- The transaction that ends `PromoteDelayed`. -/
def promoteTx (id : String) (r : Redis Body) : Redis Body :=
  { r with
    scheduled := del r.scheduled id
    immediate := id :: r.immediate }

variable [BodyCodec Body]

/-- The transaction that ends `PurgeDLQ`; `bodies` is what `LRANGE` returned. An entry
that does not decode names no body. -/
def purgeDLQTx (bodies : List Body) (r : Redis Body) : Redis Body :=
  { r with
    dead := []
    task := fun id => if bodies.any (deadOf id) then none else r.task id }

end

/-! ## Program counters -/

/-- Where a `deleteTask` call stands; each constructor names the command sent next. -/
inductive DeletePc (Body : Type) where
  /-- `LRANGE` of the dead list. -/
  | range
  /-- `LREM` of each match. -/
  | remove (todo : List Body)
  /-- The transaction. -/
  | commit
  | done

/-- Where a `PurgeQueue` request stands. -/
inductive PurgeQueuePc where
  /-- `LRANGE` of the ready list. -/
  | range
  /-- The transaction. -/
  | commit (ids : List String)
  | done (purged : ℕ)

/-- Where a `PurgeDLQ` request stands. -/
inductive PurgeDLQPc (Body : Type) where
  /-- `LRANGE` of the dead list. -/
  | range
  /-- The transaction. -/
  | commit (bodies : List Body)
  | done (purged : ℕ)

/-- Where a `PromoteDelayed` request stands. -/
inductive PromotePc where
  /-- `ZSCORE` of the task. -/
  | check
  /-- The transaction. -/
  | commit
  | done (found : Bool)

section

variable {Body : Type}

/-- `LREM` next, or the transaction when nothing is left to remove. -/
def DeletePc.afterRange (todo : List Body) : DeletePc Body :=
  match todo with
  | [] => .commit
  | _ :: _ => .remove todo

/-- The next command of a `PurgeQueue` request. -/
def purgeQueueStep (r : Redis Body) : PurgeQueuePc → Redis Body × PurgeQueuePc
  | .range => (r, .commit r.immediate)
  | .commit ids => (purgeQueueTx ids r, .done ids.length)
  | .done purged => (r, .done purged)

/-- The next command of a `PromoteDelayed` request. Only a task waiting in the scheduled
set can be promoted. -/
def promoteStep (id : String) (r : Redis Body) : PromotePc → Redis Body × PromotePc
  | .check => (r, if (r.scheduled id).isSome then .commit else .done false)
  | .commit => (promoteTx id r, .done true)
  | .done found => (r, .done found)

variable [BodyCodec Body]

/-- The next command of a `PurgeDLQ` request. -/
def purgeDLQStep (r : Redis Body) : PurgeDLQPc Body → Redis Body × PurgeDLQPc Body
  | .range => (r, .commit r.dead)
  | .commit bodies => (purgeDLQTx bodies r, .done bodies.length)
  | .done purged => (r, .done purged)

variable [DecidableEq Body]

/-- The next command of a `deleteTask` call. -/
def deleteStep (id : String) (r : Redis Body) : DeletePc Body → Redis Body × DeletePc Body
  | .range => (r, .afterRange (matching id r.dead))
  | .remove [] => (r, .commit)
  | .remove (body :: todo) => (lrem body r, .afterRange todo)
  | .commit => (deleteTx id r, .done)
  | .done => (r, .done)

end

/-! ## Requests -/

/-- A request and where it stands. `noun` is how a requeue handler names the task in its
error. -/
inductive Request (Body : Type) where
  | requeue (noun id : String) (resetAttempts : Bool) (pc : RequeuePc Body)
  | delete (id : String) (pc : DeletePc Body)
  | purgeQueue (pc : PurgeQueuePc)
  | purgeDLQ (pc : PurgeDLQPc Body)
  | promote (id : String) (pc : PromotePc)

/-- What an operator can ask for. -/
inductive Demand where
  | action (op : ApiOp)
  | promoteDelayed (id : String)

section

variable {Body : Type}

/-- The request a handler starts with. -/
def ApiOp.request : ApiOp → Request Body
  | .deleteJob id | .cancelDelayed id | .deleteDLQ id => .delete id .range
  | .purgeQueue => .purgeQueue .range
  | .purgeDLQ => .purgeDLQ .range
  | .retryJob id => .requeue "job" id true .range
  | .requeueJob id => .requeue "job" id false .range
  | .retryDLQ id => .requeue "dlq entry" id true .range

def Demand.request : Demand → Request Body
  | .action op => op.request
  | .promoteDelayed id => .promote id .check

/-- What a finished request answered. -/
def Request.response : Request Body → Option Response
  | .requeue _ _ _ (.done true) => some .noContent
  | .requeue noun id _ (.done false) => some (.notFound (noun ++ " " ++ id ++ " not found"))
  | .delete _ .done => some .noContent
  | .purgeQueue (.done n) => some (.purged n)
  | .purgeDLQ (.done n) => some (.purged n)
  | .promote _ (.done true) => some .noContent
  | .promote id (.done false) => some (.notFound ("delayed job " ++ id ++ " not found"))
  | _ => none

variable [BodyCodec Body] [DecidableEq Body]

/-- Send the next command of a request. -/
def Request.step (r : Redis Body) : Request Body → Redis Body × Request Body
  | .requeue noun id resetAttempts pc =>
    ((requeueStep id resetAttempts r pc).1,
      .requeue noun id resetAttempts (requeueStep id resetAttempts r pc).2)
  | .delete id pc => ((deleteStep id r pc).1, .delete id (deleteStep id r pc).2)
  | .purgeQueue pc => ((purgeQueueStep r pc).1, .purgeQueue (purgeQueueStep r pc).2)
  | .purgeDLQ pc => ((purgeDLQStep r pc).1, .purgeDLQ (purgeDLQStep r pc).2)
  | .promote id pc => ((promoteStep id r pc).1, .promote id (promoteStep id r pc).2)

end

/-! ## The desk -/

/-- The server and the requests received so far, by number. -/
structure Desk (Body : Type) where
  redis : Redis Body
  requests : ℕ → Option (Request Body)

/-- One step of one party. -/
inductive DeskAct (Body : Type) where
  /-- A command or script of the gateway, a worker, a reconciler, or a wipe. -/
  | engine (c : Call Body)
  /-- A request comes in under a new number. -/
  | receive (k : ℕ) (demand : Demand)
  /-- Request `k` sends its next command. -/
  | next (k : ℕ)

section

variable {Body : Type}

/-- A fresh server and no requests. -/
def Desk.init : Desk Body := ⟨.empty, nothing⟩

variable [BodyCodec Body] [DecidableEq Body]

/-- One step. A finished request sends nothing more. -/
def Desk.step (d : Desk Body) : DeskAct Body → Option (Desk Body)
  | .engine c => some { d with redis := d.redis.after c.now c.op }
  | .receive k demand =>
    if (d.requests k).isSome then none
    else some { d with requests := put d.requests k demand.request }
  | .next k =>
    match d.requests k with
    | none => none
    | some q =>
      if q.response.isSome then none
      else some ⟨(q.step d.redis).1, put d.requests k (q.step d.redis).2⟩

/-- Runs of the desk. -/
abbrev DeskRun (ok : Desk Body → DeskAct Body → Prop) :
    Desk Body → List (DeskAct Body) → Desk Body → Prop :=
  Run Desk.step ok

/-! ## What a step can do -/

/-- **Inversion.** The store changes by a command of another party or by the next command
of an unfinished request. -/
theorem Desk.step_cases {d d' : Desk Body} {act : DeskAct Body} (h : d.step act = some d') :
    (∃ c, act = .engine c ∧ d' = { d with redis := d.redis.after c.now c.op }) ∨
    (∃ k demand, act = .receive k demand ∧ d.requests k = none ∧
      d' = { d with requests := put d.requests k demand.request }) ∨
    (∃ k q, act = .next k ∧ d.requests k = some q ∧ q.response = none ∧
      d' = ⟨(q.step d.redis).1, put d.requests k (q.step d.redis).2⟩) := by
  cases act with
  | engine c => exact .inl ⟨c, rfl, (Option.some.inj h).symm⟩
  | receive k demand =>
    simp only [Desk.step] at h
    split at h
    · cases h
    · rename_i hnone
      exact .inr (.inl ⟨k, demand, rfl, Option.not_isSome_iff_eq_none.mp hnone,
        (Option.some.inj h).symm⟩)
  | next k =>
    simp only [Desk.step] at h
    split at h
    · cases h
    · rename_i q hq
      split at h
      · cases h
      · rename_i hnone
        exact .inr (.inr ⟨k, q, rfl, hq, Option.not_isSome_iff_eq_none.mp hnone,
          (Option.some.inj h).symm⟩)

/-- Steps of other parties leave the request where it is. -/
theorem Desk.step_other {d d' : Desk Body} {act : DeskAct Body} {k : ℕ} {q : Request Body}
    (hq : d.requests k = some q) (hne : act ≠ .next k) (hst : d.step act = some d') :
    d'.requests k = some q := by
  obtain ⟨c, rfl, rfl⟩ | ⟨k', demand, rfl, hnone, rfl⟩ | ⟨k', q', rfl, hq', -, rfl⟩ :=
    Desk.step_cases hst
  · exact hq
  · have hk : k ≠ k' := by
      rintro rfl
      rw [hq] at hnone
      cases hnone
    exact (put_of_ne _ _ hk).trans hq
  · have hk : k ≠ k' := fun hk => hne (by rw [hk])
    exact (put_of_ne _ _ hk).trans hq

/-- The request's own step. -/
theorem Desk.step_own {d d' : Desk Body} {k : ℕ} {q : Request Body}
    (hq : d.requests k = some q) (hst : d.step (.next k) = some d') :
    q.response = none ∧ d'.redis = (q.step d.redis).1 ∧
      d'.requests k = some (q.step d.redis).2 := by
  obtain ⟨c, h, -⟩ | ⟨k', demand, h, -⟩ | ⟨k', q', h, hq', hopen, rfl⟩ := Desk.step_cases hst
  · cases h
  · cases h
  · cases h
    obtain rfl := Option.some.inj (hq.symm.trans hq')
    exact ⟨hopen, rfl, put_self _ _ _⟩

end

end ForgeQueue
