import ForgeQueue.Logic.Gaps
import ForgeQueue.Model.Desk

/-!
# What the commands of a request write

Whatever a request has read before, the command it sends next is fixed by its program
counter and is one of eight writes. Invariants of the desk are proved per write. A
request that nobody interrupts does what its handler does as a whole.
-/

namespace ForgeQueue

open Base

/-- What one command of a request does to the store. -/
inductive Write (Body : Type) where
  /-- `LRANGE`, `GET`, `ZSCORE`. -/
  | nothing
  | lrem (body : Body)
  | setBody (id : String) (body : Body)
  | requeueTx (id : String)
  | deleteTx (id : String)
  | purgeQueueTx (ids : List String)
  | purgeDLQTx (bodies : List Body)
  | promoteTx (id : String)

section

variable {Body : Type}

/-- The write of the command a request sends next. -/
def Request.write : Request Body → Write Body
  | .requeue _ _ _ (.remove (body :: _) _) => .lrem body
  | .requeue _ id _ (.restore body) => .setBody id body
  | .requeue _ id _ (.reset body _) => .setBody id body
  | .requeue _ id _ (.commit _) => .requeueTx id
  | .delete _ (.remove (body :: _)) => .lrem body
  | .delete id .commit => .deleteTx id
  | .purgeQueue (.commit ids) => .purgeQueueTx ids
  | .purgeDLQ (.commit bodies) => .purgeDLQTx bodies
  | .promote id .commit => .promoteTx id
  | _ => .nothing

/-- Where a request stands that sends the write. -/
def Request.Sends (q : Request Body) : Write Body → Prop
  | .nothing => True
  | .lrem body =>
    (∃ noun id resetAttempts todo deadBody,
      q = .requeue noun id resetAttempts (.remove (body :: todo) deadBody)) ∨
    ∃ id todo, q = .delete id (.remove (body :: todo))
  | .setBody id body =>
    (∃ noun resetAttempts, q = .requeue noun id resetAttempts (.restore body)) ∨
    ∃ noun resetAttempts written, q = .requeue noun id resetAttempts (.reset body written)
  | .requeueTx id =>
    ∃ noun resetAttempts written, q = .requeue noun id resetAttempts (.commit written)
  | .deleteTx id => q = .delete id .commit
  | .purgeQueueTx ids => q = .purgeQueue (.commit ids)
  | .purgeDLQTx bodies => q = .purgeDLQ (.commit bodies)
  | .promoteTx id => q = .promote id .commit

/-- Only the requests listed there send a write. -/
theorem Request.sends_write (q : Request Body) : q.Sends q.write := by
  cases q with
  | requeue noun id resetAttempts pc =>
    cases pc with
    | remove todo deadBody =>
      cases todo with
      | nil => trivial
      | cons body todo => exact .inl ⟨noun, id, resetAttempts, todo, deadBody, rfl⟩
    | restore body => exact .inl ⟨noun, resetAttempts, rfl⟩
    | reset body written => exact .inr ⟨noun, resetAttempts, written, rfl⟩
    | commit written => exact ⟨noun, resetAttempts, written, rfl⟩
    | _ => trivial
  | delete id pc =>
    cases pc with
    | remove todo =>
      cases todo with
      | nil => trivial
      | cons body todo => exact .inr ⟨id, todo, rfl⟩
    | commit => exact rfl
    | _ => trivial
  | purgeQueue pc =>
    cases pc with
    | commit ids => exact rfl
    | _ => trivial
  | purgeDLQ pc =>
    cases pc with
    | commit bodies => exact rfl
    | _ => trivial
  | promote id pc =>
    cases pc with
    | commit => exact rfl
    | _ => trivial

variable [BodyCodec Body] [DecidableEq Body]

def Write.apply (r : Redis Body) : Write Body → Redis Body
  | .nothing => r
  | .lrem body => ForgeQueue.lrem body r
  | .setBody id body => r.setBody id body
  | .requeueTx id => ForgeQueue.requeueTx id r
  | .deleteTx id => ForgeQueue.deleteTx id r
  | .purgeQueueTx ids => ForgeQueue.purgeQueueTx ids r
  | .purgeDLQTx bodies => ForgeQueue.purgeDLQTx bodies r
  | .promoteTx id => ForgeQueue.promoteTx id r

/-- **What a request's command can do.** -/
theorem Request.step_write (q : Request Body) (r : Redis Body) :
    (q.step r).1 = q.write.apply r := by
  cases q with
  | requeue noun id resetAttempts pc =>
    cases pc with
    | remove todo deadBody => cases todo <;> rfl
    | look deadBody =>
      show (requeueStep id resetAttempts r (.look deadBody)).1 = r
      simp only [requeueStep]
      split
      · rfl
      · split <;> rfl
    | read written =>
      show (requeueStep id resetAttempts r (.read written)).1 = r
      simp only [requeueStep]
      split <;> rfl
    | _ => rfl
  | delete id pc =>
    cases pc with
    | remove todo => cases todo <;> rfl
    | _ => rfl
  | purgeQueue pc => cases pc <;> rfl
  | purgeDLQ pc => cases pc <;> rfl
  | promote id pc => cases pc <;> rfl

/-- No write of a request separates the inflight set from the leases. -/
theorem Coupled.write {r : Redis Body} (h : Coupled r) (w : Write Body) :
    Coupled (w.apply r) := by
  cases w with
  | requeueTx id => exact h.of_del rfl rfl
  | deleteTx id => exact h.of_del rfl rfl
  | _ => exact h.of_eq rfl rfl

/-! ## A request that nobody interrupts -/

/-- One command of an unfinished request, with nothing in between. -/
def SendsNext (p p' : Redis Body × Request Body) : Prop :=
  p.2.response = none ∧ p' = p.2.step p.1

/-- The request runs alone from one point to another. -/
def Alone : Redis Body × Request Body → Redis Body × Request Body → Prop :=
  Relation.ReflTransGen SendsNext

theorem Alone.step {r : Redis Body} {q : Request Body} {p : Redis Body × Request Body}
    (hopen : q.response = none) (h : Alone (q.step r) p) : Alone (r, q) p :=
  .head ⟨hopen, rfl⟩ h

/-- The removals of a `deleteTask` call and its transaction. -/
theorem alone_delete (id : String) (todo : List Body) (r : Redis Body) :
    Alone (r, .delete id (.afterRange todo))
      (deleteTx id (todo.foldl (fun r body => lrem body r) r), .delete id .done) := by
  induction todo generalizing r with
  | nil => exact .step rfl .refl
  | cons body todo ih => exact .step rfl (ih (lrem body r))

/-- The removals of a `requeue` call. -/
theorem alone_removals (noun id : String) (resetAttempts : Bool) (deadBody : Option Body)
    (todo : List Body) (r : Redis Body) :
    Alone (r, .requeue noun id resetAttempts (.afterRange todo deadBody))
      (todo.foldl (fun r body => lrem body r) r,
        .requeue noun id resetAttempts (.look deadBody)) := by
  induction todo generalizing r with
  | nil => exact .refl
  | cons body todo ih => exact .step rfl (ih (lrem body r))

/-- A `requeue` call that has found or restored the body. -/
theorem alone_requeueBody (noun id : String) (resetAttempts written : Bool) (r : Redis Body) :
    Alone (r, .requeue noun id resetAttempts (.afterLook resetAttempts written))
      (requeueBody id resetAttempts r, .requeue noun id resetAttempts (.done true)) := by
  cases resetAttempts with
  | false => exact .step rfl .refl
  | true =>
    refine .step rfl ?_
    simp only [Request.step, requeueStep, requeueBody, if_true]
    cases hreset : resetBody id r with
    | none => exact .step rfl .refl
    | some body => exact .step rfl (.step rfl .refl)

/-- A whole `requeue` call. -/
theorem alone_requeue (noun id : String) (resetAttempts : Bool) (r : Redis Body) :
    Alone (r, .requeue noun id resetAttempts .range)
      ((requeue id resetAttempts r).1,
        .requeue noun id resetAttempts (.done (requeue id resetAttempts r).2)) := by
  have hlook : Alone (r, .requeue noun id resetAttempts .range)
      ((takeDead id r).1, .requeue noun id resetAttempts (.look (takeDead id r).2)) :=
    .step rfl (alone_removals noun id resetAttempts _ (matching id r.dead) r)
  refine hlook.trans (Alone.step rfl ?_)
  simp only [Request.step, requeueStep, requeue]
  cases htask : (takeDead id r).1.task id with
  | some body => exact alone_requeueBody noun id resetAttempts false (takeDead id r).1
  | none =>
    cases hdead : (takeDead id r).2 with
    | none => exact .refl
    | some body => exact .step rfl (alone_requeueBody noun id resetAttempts true _)

/-- **Uninterrupted.** A request served without interruption leaves the state and gives
the answer of its handler as a whole. -/
theorem alone_action (op : ApiOp) (r : Redis Body) :
    ∃ q : Request Body, Alone (r, op.request) ((op.run r).1, q) ∧
      q.response = some (op.run r).2 := by
  have hdelete : ∀ id, ∃ q : Request Body,
      Alone (r, .delete id .range) ((deleteHandler id r).1, q) ∧
        q.response = some (deleteHandler id r).2 := fun id =>
    ⟨_, .step rfl (alone_delete id (matching id r.dead) r), rfl⟩
  have hrequeue : ∀ noun id resetAttempts, ∃ q : Request Body,
      Alone (r, .requeue noun id resetAttempts .range)
          ((requeueHandler noun id resetAttempts r).1, q) ∧
        q.response = some (requeueHandler noun id resetAttempts r).2 := by
    intro noun id resetAttempts
    refine ⟨.requeue noun id resetAttempts (.done (requeue id resetAttempts r).2), ?_⟩
    have h := alone_requeue noun id resetAttempts r
    revert h
    unfold requeueHandler
    cases requeue id resetAttempts r with
    | mk r' found => cases found <;> exact fun h => ⟨h, rfl⟩
  cases op with
  | deleteJob id => exact hdelete id
  | cancelDelayed id => exact hdelete id
  | deleteDLQ id => exact hdelete id
  | purgeQueue => exact ⟨_, .step rfl (.step rfl .refl), rfl⟩
  | purgeDLQ => exact ⟨_, .step rfl (.step rfl .refl), rfl⟩
  | retryJob id => exact hrequeue "job" id true
  | requeueJob id => exact hrequeue "job" id false
  | retryDLQ id => exact hrequeue "dlq entry" id true

end

end ForgeQueue
