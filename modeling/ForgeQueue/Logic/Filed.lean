import ForgeQueue.Logic.Durable
import ForgeQueue.Logic.Lifecycle
import ForgeQueue.Logic.Requests

/-!
# Bodies are filed under their own id

Every body in the store was written by the gateway, written back from a row of the
journal, rewritten by a failed attempt, or moved by an operator. So what `task:<id>` holds is a document of task
`id`, every entry of the dead list is a document, and an operator's request that is about
to write a body of task `id` holds a document of it.
-/

namespace ForgeQueue

open Base

section

variable {Body : Type} [BodyCodec Body]

/-- The bodies in the store are filed under the ids of their documents. -/
structure Filed (r : Redis Body) : Prop where
  task : ∀ id b, r.task id = some b → BodyOf id b
  dead : ∀ b ∈ r.dead, ∃ id, BodyOf id b

theorem Filed.empty : Filed (Redis.empty : Redis Body) where
  task _ _ h := by cases h
  dead _ h := by cases h

/-- An entry of the dead list is a document of the task it is read as. -/
theorem BodyOf.of_deadOf {b : Body} {id id' : String} (h : BodyOf id' b)
    (hd : deadOf id b = true) : BodyOf id b := by
  obtain ⟨t, hdoc, -⟩ := h
  rw [deadOf_doc hdoc] at hd
  exact ⟨t, hdoc, (of_decide_eq_true hd).2⟩

/-- A document of one task is no dead entry of another. -/
theorem BodyOf.deadOf_ne {b : Body} {id x : String} (h : BodyOf id b) (hne : x ≠ id) :
    deadOf x b = false := by
  obtain ⟨t, hdoc, rfl⟩ := h
  rw [deadOf_doc hdoc]
  exact decide_eq_false fun hc => hne hc.2.symm

/-- A body written under its own id. -/
theorem Filed.put {r : Redis Body} {id : String} {b : Body} (h : Filed r) (hb : BodyOf id b) :
    Filed (r.setBody id b) := by
  refine ⟨?_, h.dead⟩
  intro x b' hx
  rcases put_eq_some.mp hx with ⟨rfl, rfl⟩ | ⟨-, hx'⟩
  · exact hb
  · exact h.task x b' hx'

/-- Fewer bodies and fewer dead entries. -/
theorem Filed.shrink {r r' : Redis Body} (h : Filed r)
    (htask : ∀ id b, r'.task id = some b → r.task id = some b)
    (hdead : ∀ b ∈ r'.dead, b ∈ r.dead) : Filed r' :=
  ⟨fun id b hb => h.task id b (htask id b hb), fun b hb => h.dead b (hdead b hb)⟩

end

section

variable {Body : Type} [TaskCodec Body]

/-- A failed attempt rewrites the body of its own task, and what it puts on the dead list
is that body. -/
theorem Filed.retry {r : Redis Body} (h : Filed r) (now base cap : ℚ) (t : String) :
    Filed (retryOrBury now base cap t (r.release t)).1 ∧
      ∀ x, x ≠ t → matching x (retryOrBury now base cap t (r.release t)).1.dead =
        matching x r.dead := by
  cases hb : r.task t with
  | none =>
    have heq : retryOrBury now base cap t (r.release t) = (r.release t, some .noBody) := by
      rw [retryOrBury, release_task, hb]
    rw [heq]
    exact ⟨⟨h.task, h.dead⟩, fun _ _ => rfl⟩
  | some b =>
    obtain ⟨doc, hdoc, hid⟩ := h.task t b hb
    obtain ⟨b', hdoc', heq⟩ := retryOrBury_doc now base cap t (r.release t) hb hdoc
    have hb' : BodyOf t b' := ⟨doc.bump, hdoc', hid⟩
    have hput : Filed (r.setBody t b') := h.put hb'
    rw [heq]
    by_cases hx : doc.Exhausted
    · rw [if_pos hx]
      refine ⟨⟨hput.task, ?_⟩, fun x hne => List.filter_cons_of_neg ?_⟩
      · intro e he
        rcases List.mem_cons.mp he with rfl | he
        · exact ⟨t, hb'⟩
        · exact h.dead e he
      · rw [hb'.deadOf_ne hne]
        exact Bool.false_ne_true
    · rw [if_neg hx]
      exact ⟨⟨hput.task, h.dead⟩, fun _ _ => rfl⟩

/-- **Step.** Every effect but a materialization keeps bodies filed. -/
theorem Filed.effect {r r' : Redis Body} {ev : Event} (h : Filed r) (heff : Effect r ev r')
    (hmat : ∀ t, ev ≠ .materialized t) : Filed r' := by
  cases heff with
  | bodySet a =>
    exact h.put ⟨routeData a, TaskCodec.marshal_isDoc _ (routeData_fits a), rfl⟩
  | enqueued a clock =>
    refine h.shrink ?_ ?_
    · intro id b hb
      rw [routePush_task] at hb
      exact hb
    · intro b hb
      unfold routePush at hb
      split at hb <;> exact hb
  | paused on => exact ⟨h.task, h.dead⟩
  | claimed t ready l e _ _ => exact ⟨h.task, h.dead⟩
  | beat t l e _ => exact ⟨h.task, h.dead⟩
  | acked t l _ => exact h.shrink (fun id b hb => (del_eq_some.mp hb).2) (fun b hb => hb)
  | failed t l now base cap _ _ => exact (h.retry now base cap t).1
  | reclaimed t e now base cap _ _ => exact (h.retry now base cap t).1
  | promoted t score now _ _ => exact ⟨h.task, h.dead⟩
  | materialized t target payload _ => exact absurd rfl (hmat t)
  | requeued t => exact ⟨h.task, h.dead⟩
  | deleted t => exact h.shrink (fun id b hb => (del_eq_some.mp hb).2) (fun b hb => hb)
  | wiped => exact .empty

/-- The script of the reconcilers writes a body under its own id. -/
theorem Filed.materialize {r : Redis Body} {id : String} {payload : Body} (h : Filed r)
    (hb : BodyOf id payload) (score : Option ℚ) :
    Filed (materializeScript id score payload r).1 := by
  unfold materializeScript
  split
  · exact h
  · cases score with
    | none => exact ⟨(h.put hb).task, h.dead⟩
    | some s => exact ⟨(h.put hb).task, h.dead⟩

/-- What a reconciler materializes is filed under its own id. -/
def Op.Filed (op : Op Body) : Prop :=
  ∀ id score payload, op = .materialize id score payload → BodyOf id payload

/-- **Commands.** -/
theorem Filed.after {r : Redis Body} (h : Filed r) (now : ℚ) {op : Op Body}
    (hop : op.Filed) : Filed (r.after now op) := by
  by_cases hmat : ∃ id score payload, op = .materialize id score payload
  · obtain ⟨id, score, payload, rfl⟩ := hmat
    exact h.materialize (hop id score payload rfl) score
  · refine (r.after_trace now op).keeps ?_ h
    intro r₁ ev r₂ hev heff h₁
    refine h₁.effect heff ?_
    rintro t rfl
    obtain ⟨score, payload, heq⟩ := Op.emits_source (Redis.emits_of_mem hev)
    exact hmat ⟨t, score, payload, heq⟩

/-! ## Requests -/

/-- The bodies a request is going to write. -/
def Request.Carries : Request Body → Prop
  | .requeue _ id _ (.remove _ deadBody) | .requeue _ id _ (.look deadBody) =>
    ∀ b, deadBody = some b → BodyOf id b
  | .requeue _ id _ (.restore b) | .requeue _ id _ (.reset b _) => BodyOf id b
  | _ => True

/-- The store and all requests. -/
structure Desk.Filed (d : Desk Body) : Prop where
  store : ForgeQueue.Filed d.redis
  requests : ∀ k q, d.requests k = some q → q.Carries

theorem Desk.Filed.init : (Desk.init : Desk Body).Filed where
  store := .empty
  requests _ _ h := by cases h

/-- A demand brings no body along. -/
theorem Demand.carries (demand : Demand) : (demand.request : Request Body).Carries := by
  cases demand with
  | action op => cases op <;> trivial
  | promoteDelayed id => trivial

/-- What a reset writes is a document of the same task. -/
theorem Filed.resetBody {r : Redis Body} {id : String} {b : Body} (h : Filed r)
    (hb : resetBody id r = some b) : BodyOf id b := by
  unfold ForgeQueue.resetBody at hb
  obtain ⟨raw, hraw, hb⟩ := Option.bind_eq_some_iff.mp hb
  obtain ⟨tm, htm, rfl⟩ := Option.map_eq_some_iff.mp hb
  obtain ⟨t, hdoc, hid⟩ := h.task id raw hraw
  -- the body decoded, so its counters fit
  rw [hdoc.api] at htm
  by_cases hfits : t.Fits
  · rw [if_pos hfits] at htm
    obtain rfl := Option.some.inj htm
    have hfits' : ({ t with attempts := 0 } : ModelTask).Fits :=
      ⟨hfits.1, show inInt32 0 by decide⟩
    exact ⟨{ t with attempts := 0 }, TaskCodec.apiMarshal_isDoc _ hfits', hid⟩
  · rw [if_neg hfits] at htm
    cases htm

variable [DecidableEq Body]

/-- Writes of a request that carries its own bodies. -/
theorem Filed.write {r : Redis Body} {q : Request Body} (h : Filed r) (hq : q.Carries) :
    Filed (q.write.apply r) := by
  have hsends := q.sends_write
  cases hw : q.write with
  | nothing => exact h
  | lrem body => exact h.shrink (fun _ _ hb => hb) (fun b hb => List.mem_of_mem_erase hb)
  | setBody id body =>
    rw [hw] at hsends
    rcases hsends with ⟨noun, reset, rfl⟩ | ⟨noun, reset, written, rfl⟩
    · exact h.put hq
    · exact h.put hq
  | requeueTx id => exact ⟨h.task, h.dead⟩
  | deleteTx id => exact h.shrink (fun x b hb => (del_eq_some.mp hb).2) (fun b hb => hb)
  | purgeQueueTx ids =>
    refine h.shrink (fun id b hb => ?_) (fun b hb => hb)
    change (if id ∈ ids then none else r.task id) = some b at hb
    split at hb
    · cases hb
    · exact hb
  | purgeDLQTx bodies =>
    refine h.shrink (fun id b hb => ?_) (fun b hb => by cases hb)
    change (if bodies.any (deadOf id) then none else r.task id) = some b at hb
    split at hb
    · cases hb
    · exact hb
  | promoteTx id => exact ⟨h.task, h.dead⟩

/-- What a request reads from a filed store it carries under its own id. -/
theorem Request.Carries.step {r : Redis Body} {q : Request Body} (hq : q.Carries)
    (h : Filed r) : (q.step r).2.Carries := by
  cases q with
  | requeue noun id reset pc =>
    have hrange : ∀ (todo : List Body) (deadBody : Option Body),
        (∀ b, deadBody = some b → BodyOf id b) →
        (Request.requeue noun id reset (.afterRange todo deadBody)).Carries := by
      intro todo deadBody hb
      cases todo <;> exact hb
    have hlook : ∀ written,
        (Request.requeue noun id reset (.afterLook reset written) : Request Body).Carries := by
      intro written
      cases reset <;> trivial
    cases pc with
    | range =>
      refine hrange _ _ fun b hb => ?_
      have hmem := List.mem_filter.mp (List.mem_of_mem_head? hb)
      obtain ⟨id', hb'⟩ := h.dead b hmem.1
      exact hb'.of_deadOf hmem.2
    | remove todo deadBody =>
      cases todo with
      | nil => exact hq
      | cons body todo => exact hrange todo deadBody hq
    | look deadBody =>
      show (Request.requeue noun id reset (requeueStep id reset r (.look deadBody)).2).Carries
      simp only [requeueStep]
      split
      · exact hlook false
      · cases deadBody with
        | none => trivial
        | some body => exact hq body rfl
    | restore body => exact hlook true
    | read written =>
      show (Request.requeue noun id reset (requeueStep id reset r (.read written)).2).Carries
      simp only [requeueStep]
      split
      · trivial
      · rename_i body hbody
        exact h.resetBody hbody
    | reset body written => trivial
    | commit written => trivial
    | done ok => trivial
  | delete id pc => trivial
  | purgeQueue pc => trivial
  | purgeDLQ pc => trivial
  | promote id pc => trivial

/-- What the reconcilers materialize is filed. -/
def BodiesFiled (_ : Desk Body) : DeskAct Body → Prop
  | .engine c => c.op.Filed
  | _ => True

/-- **Step.** -/
theorem Desk.Filed.step {d d' : Desk Body} {act : DeskAct Body} (h : d.Filed)
    (hok : BodiesFiled d act) (hst : d.step act = some d') : d'.Filed := by
  obtain ⟨c, rfl, rfl⟩ | ⟨k, demand, rfl, -, rfl⟩ | ⟨k, q, rfl, hq, -, rfl⟩ :=
    Desk.step_cases hst
  · exact ⟨h.store.after c.now hok, h.requests⟩
  · refine ⟨h.store, ?_⟩
    intro j q hj
    rcases put_eq_some.mp hj with ⟨-, rfl⟩ | ⟨-, hj'⟩
    · exact demand.carries
    · exact h.requests j q hj'
  · refine ⟨?_, ?_⟩
    · show ForgeQueue.Filed (q.step d.redis).1
      rw [q.step_write]
      exact h.store.write (h.requests k q hq)
    · intro j q' hj
      rcases put_eq_some.mp hj with ⟨-, rfl⟩ | ⟨-, hj'⟩
      · exact (h.requests k q hq).step h.store
      · exact h.requests j q' hj'

/-- No command of the reconcilers. -/
def JournalOff (_ : Desk Body) : DeskAct Body → Prop
  | .engine c => ∀ t score payload, c.op ≠ .materialize t score payload
  | _ => True

omit [DecidableEq Body] in
theorem JournalOff.bodiesFiled {d : Desk Body} {act : DeskAct Body} (h : JournalOff d act) :
    BodiesFiled d act := by
  cases act with
  | engine c => exact fun id score payload heq => absurd heq (h id score payload)
  | receive k demand => trivial
  | next k => trivial

/-- **Run.** -/
theorem Desk.Filed.run {d d' : Desk Body} {acts : List (DeskAct Body)} (h : d.Filed)
    (hrun : DeskRun BodiesFiled d acts d') : d'.Filed :=
  hrun.invariant Desk.Filed (fun _ _ _ hok hst hs => hs.step hok hst) h

end

end ForgeQueue
