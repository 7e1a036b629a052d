import ForgeQueue.Model.JsonBody
import ForgeQueue.Theorems.LeaseIndex

/-!
# A paused queue

`PauseQueue` sets a key that the claim script reads; nobody else reads it. While it is set
the workers finish what they hold, tasks arrive, come due and are put back, and operators
move them about. None of this hands a task out, and what was ready stays ready, in its
order, behind what arrives: until somebody resumes the queue, deletes the task, purges the
list, or Redis loses its keys, the pause with them.
-/

namespace ForgeQueue

open Base

variable {Body : Type} {keep : String → Bool}

/-- What a step may write while the queue is paused, if the tasks of `keep` are to stay. -/
def Event.Spares (keep : String → Bool) : Event → Prop
  | .paused on => on = true
  | .deleted id => keep id = false
  | .wiped => False
  | _ => True

def Op.Spares (keep : String → Bool) : Op Body → Prop
  | .resume | .wipe => False
  | .deleteTx id => keep id = false
  | _ => True

/-- A purge takes whatever is on the ready list by then, listed before or not. -/
def Write.Spares (keep : String → Bool) (r : Redis Body) : Write Body → Prop
  | .deleteTx id => keep id = false
  | .purgeQueueTx _ => ∀ id ∈ r.immediate, keep id = false
  | _ => True

/-- No resume, no wipe, and no deletion or purge of a task to be kept. -/
def Spares (keep : String → Bool) (d : Desk Body) : DeskAct Body → Prop
  | .engine c => c.op.Spares keep
  | .receive _ _ => True
  | .next k => ∀ q, d.requests k = some q → q.write.Spares keep d.redis

/-- What a pause keeps: no lease is new, and the ready tasks wait in their order behind the
newer ones. -/
structure Withheld (keep : String → Bool) (r r' : Redis Body) : Prop where
  paused : r'.paused = true
  leases : ∀ id leaseID, r'.leases id = some leaseID → r.leases id = some leaseID
  ready : r.immediate.filter keep <:+ r'.immediate.filter keep

theorem Withheld.refl {r : Redis Body} (h : r.paused = true) : Withheld keep r r :=
  ⟨h, fun _ _ h => h, List.suffix_refl _⟩

theorem Withheld.trans {r r' r'' : Redis Body} (h : Withheld keep r r')
    (h' : Withheld keep r' r'') : Withheld keep r r'' :=
  ⟨h'.paused, fun id l hl => h.leases id l (h'.leases id l hl), h.ready.trans h'.ready⟩

/-- A step that takes no ready task and makes no lease. -/
theorem Withheld.of_push {r r' : Redis Body} (hp : r.paused = true) (hpaused : r'.paused = r.paused)
    (hleases : ∀ id leaseID, r'.leases id = some leaseID → r.leases id = some leaseID)
    (hready : r.immediate <:+ r'.immediate) : Withheld keep r r' :=
  ⟨hpaused.trans hp, hleases, hready.filter keep⟩

theorem leases_of_del {r : Redis Body} {t id leaseID : String}
    (h : del r.leases t id = some leaseID) : r.leases id = some leaseID :=
  (del_eq_some.mp h).2

/-- A deletion leaves the other tasks where they are. -/
theorem withheld_deleteTx {r : Redis Body} (hp : r.paused = true) {id : String}
    (hid : keep id = false) : Withheld keep r (deleteTx id r) := by
  refine ⟨hp, fun x l => leases_of_del, ?_⟩
  show r.immediate.filter keep <:+ (r.immediate.filter (· ≠ id)).filter keep
  rw [List.filter_filter]
  have hsame : r.immediate.filter keep =
      r.immediate.filter fun x => keep x && decide (x ≠ id) := by
    refine List.filter_congr fun x _ => ?_
    by_cases hx : x = id
    · rw [hx, hid]
      rfl
    · simp [hx]
  rw [hsame]

theorem withheld_requeueTx {r : Redis Body} (hp : r.paused = true) (id : String) :
    Withheld keep r (requeueTx id r) :=
  .of_push hp rfl (fun _ _ => leases_of_del) (List.suffix_cons _ _)

/-- A purge of a ready list without a task to be kept leaves the leases alone. -/
theorem withheld_purgeQueueTx {r : Redis Body} (hp : r.paused = true) (ids : List String)
    (hids : ∀ id ∈ r.immediate, keep id = false) : Withheld keep r (purgeQueueTx ids r) := by
  refine ⟨hp, fun _ _ h => h, ?_⟩
  have hnone : r.immediate.filter keep = [] := List.filter_eq_nil_iff.mpr fun id hid => by
    rw [hids id hid]
    exact Bool.false_ne_true
  rw [hnone]
  exact List.nil_suffix

/-- A command that spares the tasks reports events that do. -/
theorem Op.Spares.emits {op : Op Body} (h : op.Spares keep) {ev : Event} (hev : op.emits ev) :
    ev.Spares keep := by
  cases op with
  | claimBatch leaseIDs expiry =>
    obtain ⟨t, l, -, rfl⟩ := hev
    trivial
  | heartbeat t l d =>
    obtain ⟨expiry, rfl⟩ := hev
    trivial
  | ackBatch pairs =>
    obtain ⟨t, l, rfl⟩ := hev
    trivial
  | requeueOrDead t l base cap =>
    rcases hev with ⟨status, rfl⟩ | ⟨l', status, rfl⟩
    · trivial
    · trivial
  | resume => exact h.elim
  | wipe => exact h.elim
  | deleteTx id =>
    obtain rfl : ev = _ := hev
    exact h
  | pause =>
    obtain rfl : ev = _ := hev
    rfl
  | _ =>
    obtain rfl : ev = _ := hev
    trivial

variable [BodyCodec Body]

/-- **One event.** -/
theorem withheld_effect {r r' : Redis Body} {ev : Event} (hp : r.paused = true)
    (hev : ev.Spares keep) (heff : Effect r ev r') : Withheld keep r r' := by
  have hpush : ∀ target id, r.immediate <:+ (routePush target id r).immediate := by
    intro target id
    cases target with
    | none => exact List.suffix_cons _ _
    | some score => exact List.suffix_refl _
  cases heff with
  | bodySet a => exact .of_push hp rfl (fun _ _ h => h) (List.suffix_refl _)
  | enqueued a clock =>
    refine .of_push hp (routePush_paused ..) (fun x l h => ?_) (hpush _ _)
    rwa [routePush_leases] at h
  | paused on => exact ⟨hev, fun _ _ h => h, List.suffix_refl _⟩
  | claimed taskID ready leaseID expiry hopen =>
    -- the script does not get here
    rw [hp] at hopen
    cases hopen
  | beat taskID leaseID expiry hl => exact .of_push hp rfl (fun _ _ h => h) (List.suffix_refl _)
  | acked taskID leaseID hl =>
    exact .of_push hp rfl (fun _ _ => leases_of_del) (List.suffix_refl _)
  | failed taskID leaseID now base cap =>
    have hframe := retryOrBury_frame now base cap taskID (r.release taskID)
    refine .of_push hp hframe.paused (fun x l h => ?_) ?_
    · rw [hframe.leases] at h
      exact leases_of_del h
    · rw [hframe.immediate]
      exact List.suffix_refl _
  | reclaimed taskID expiry now base cap =>
    have hframe := retryOrBury_frame now base cap taskID (r.release taskID)
    refine .of_push hp hframe.paused (fun x l h => ?_) ?_
    · rw [hframe.leases] at h
      exact leases_of_del h
    · rw [hframe.immediate]
      exact List.suffix_refl _
  | promoted taskID score now => exact .of_push hp rfl (fun _ _ h => h) (List.suffix_cons _ _)
  | materialized taskID target payload hlive =>
    refine .of_push hp (routePush_paused ..) (fun x l h => ?_) ?_
    · rwa [routePush_leases] at h
    · cases target with
      | none => exact List.suffix_cons _ _
      | some score => exact List.suffix_refl _
  | requeued id => exact withheld_requeueTx hp id
  | deleted id => exact withheld_deleteTx hp hev
  | wiped => exact hev.elim

/-- A command. -/
theorem withheld_after {r : Redis Body} (hp : r.paused = true) (now : ℚ) {op : Op Body}
    (hop : op.Spares keep) : Withheld keep r (r.after now op) := by
  refine (Redis.after_trace r now op).keeps (P := Withheld keep r) ?_ (.refl hp)
  intro r₁ ev r₂ hev heff h
  exact h.trans (withheld_effect h.paused (hop.emits (Redis.emits_of_mem hev)) heff)

variable [DecidableEq Body]

/-- A command of a request. -/
theorem withheld_write {r : Redis Body} (hp : r.paused = true) {w : Write Body}
    (hw : w.Spares keep r) : Withheld keep r (w.apply r) := by
  cases w with
  | requeueTx id => exact withheld_requeueTx hp id
  | deleteTx id => exact withheld_deleteTx hp hw
  | purgeQueueTx ids => exact withheld_purgeQueueTx hp ids hw
  | promoteTx id => exact .of_push hp rfl (fun _ _ h => h) (List.suffix_cons _ _)
  | _ => exact .of_push hp rfl (fun _ _ h => h) (List.suffix_refl _)

/-- **One step of the desk.** -/
theorem withheld_step {d d' : Desk Body} {act : DeskAct Body} (hp : d.redis.paused = true)
    (hok : Spares keep d act) (hst : d.step act = some d') : Withheld keep d.redis d'.redis := by
  obtain ⟨c, rfl, rfl⟩ | ⟨k, demand, rfl, -, rfl⟩ | ⟨k, q, rfl, hq, -, rfl⟩ :=
    Desk.step_cases hst
  · exact withheld_after hp c.now hok
  · exact .refl hp
  · show Withheld keep d.redis (q.step d.redis).1
    rw [Request.step_write]
    exact withheld_write hp (hok q hq)

/-- **A paused queue hands nothing out and loses nothing.** From any reachable state in which
the queue is paused, whatever workers, gateways, reconcilers and operators do short of a
resume or a wipe: the queue stays paused, every lease is one from before, every task in
flight was in flight before, and the ready tasks that nobody deletes or purges are still
ready, in their order, behind the tasks that became ready since. -/
theorem pause_holds {before during : List (DeskAct Body)} {d d' : Desk Body}
    (hbefore : DeskRun (fun _ _ => True) .init before d) (hp : d.redis.paused = true)
    (hduring : DeskRun (Spares keep) d during d') :
    d'.redis.paused = true ∧
      (∀ id leaseID, d'.redis.leases id = some leaseID → d.redis.leases id = some leaseID) ∧
      (∀ id, (d'.redis.inflight id).isSome → (d.redis.inflight id).isSome) ∧
      ∃ newer, d'.redis.immediate.filter keep = newer ++ d.redis.immediate.filter keep := by
  have hcoupled : Coupled d.redis := Coupled.empty.desk_run hbefore
  have hcoupled' : Coupled d'.redis := hcoupled.desk_run hduring
  have hheld : Withheld keep d.redis d'.redis := by
    refine hduring.invariant (fun s => Withheld keep d.redis s.redis) ?_ (.refl hp)
    intro s act s' hok hst h
    exact h.trans (withheld_step h.paused hok hst)
  refine ⟨hheld.paused, hheld.leases, fun id hid => ?_, ?_⟩
  · rw [hcoupled' id] at hid
    obtain ⟨leaseID, hl⟩ := Option.isSome_iff_exists.mp hid
    exact hcoupled.inflight (hheld.leases id leaseID hl)
  · obtain ⟨newer, hready⟩ := hheld.ready
    exact ⟨newer, hready.symm⟩

/-- A task is enqueued and claimed, a second one is enqueued, and the queue is paused. -/
def pauseBefore : List (DeskAct JsonBody) :=
  [.engine ⟨0, .routeBody sampleArgs⟩, .engine ⟨0, .routePush sampleArgs 0⟩,
    .engine ⟨0, .claimBatch ["lease"] 30⟩,
    .engine ⟨1, .routePush { sampleArgs with id := "next" } 1⟩, .engine ⟨2, .pause⟩]

/-- The workers ask in vain, the first task is acknowledged, and a third one arrives. -/
def pauseDuring : List (DeskAct JsonBody) :=
  [.engine ⟨3, .claimBatch ["other"] 33⟩, .engine ⟨4, .ackBatch [("job", "lease")]⟩,
    .engine ⟨5, .routePush { sampleArgs with id := "late" } 5⟩,
    .engine ⟨6, .claimBatch ["other"] 36⟩]

/-- The second task waits where it was, behind the third. -/
theorem pause_holds_sample :
    ∃ d d' : Desk JsonBody, DeskRun (fun _ _ => True) .init pauseBefore d ∧
      DeskRun (Spares fun _ => true) d pauseDuring d' ∧ d.redis.immediate = ["next"] ∧
      d'.redis.immediate = ["late", "next"] ∧ d'.redis.paused = true ∧
      ∀ id, (d'.redis.inflight id).isSome → (d.redis.inflight id).isSome := by
  have hend : (runList Desk.step .init pauseBefore).any (fun d => d.redis.paused &&
      d.redis.immediate == ["next"] && (runList Desk.step d pauseDuring).any fun d' =>
        d'.redis.immediate == ["late", "next"]) = true := by
    decide +kernel
  obtain ⟨d, hbefore, hd⟩ := Run.exists_of_any (fun _ _ _ => trivial) hend
  rw [Bool.and_eq_true, Bool.and_eq_true] at hd
  obtain ⟨⟨hp, hready⟩, hrest⟩ := hd
  have hspares : ∀ act ∈ pauseDuring, ∀ d : Desk JsonBody, Spares (fun _ => true) d act := by
    intro act hact d
    simp only [pauseDuring, List.mem_cons, List.not_mem_nil, or_false] at hact
    rcases hact with rfl | rfl | rfl | rfl <;> trivial
  obtain ⟨d', hduring, hready'⟩ := Run.exists_of_any hspares hrest
  obtain ⟨hpaused, -, hinflight, -⟩ := pause_holds hbefore hp hduring
  exact ⟨d, d', hbefore, hduring, beq_iff_eq.mp hready, beq_iff_eq.mp hready', hpaused, hinflight⟩

end ForgeQueue
