import ForgeQueue.Base.History
import ForgeQueue.Model.Batch
import ForgeQueue.Model.JsonBody

/-!
# A batch is settled once

What an iteration of `workerLoop` sends and when it stops the heartbeats, for every batch
and whatever the handlers and the scripts answer: one retry for each handler that failed,
one acknowledgement for all that succeeded (none if there are none), and no heartbeat
stopped before the call that settles its task returned (`iteration_settles_batch`).
-/

namespace ForgeQueue

open Base

/-- The arguments of a `requeueOrDead` call. -/
def requeueCall : BatchEvent → Option (String × String)
  | .requeueOrDead taskID leaseID => some (taskID, leaseID)
  | _ => none

/-- The pairs of an `ackBatch` call. -/
def ackCall : BatchEvent → Option (List (String × String))
  | .ackBatch taskIDs leaseIDs => some (taskIDs.zip leaseIDs)
  | _ => none

section

variable {Body : Type}

/-- A claim's task and its own lease. -/
def TaskClaim.pair (claim : TaskClaim Body) : String × String := (claim.taskID, claim.leaseID)

variable [BodyCodec Body]

/-- The ids of the batch are distinct, and a body that decodes names its own id. -/
structure OwnBodies (claims : List (TaskClaim Body)) : Prop where
  distinct : (claims.map (·.taskID)).Nodup
  own : ∀ claim ∈ claims, ∀ body task, claim.body = some body → unmarshal body = some task →
    task.id = claim.taskID

/-- Every task is settled once, and its heartbeat runs until then. -/
structure SettlesOnce (env : BatchEnv Body) (claims : List (TaskClaim Body))
    (log : List BatchEvent) : Prop where
  requeues : log.filterMap requeueCall = (claims.filter (failedTask env)).map (·.pair)
  acks : log.filterMap ackCall =
    if claims.filter (succeededTask env) = [] then []
    else [(claims.filter (succeededTask env)).map (·.pair)]
  /-- No task is in both. -/
  apart : ∀ p ∈ log.filterMap requeueCall, ∀ q ∈ (log.filterMap ackCall).flatten, p.1 ≠ q.1
  /-- A task that is not run is in neither. -/
  skipped : ∀ claim ∈ claims, runs env claim = false →
    (∀ p ∈ log.filterMap requeueCall, p.1 ≠ claim.taskID) ∧
      ∀ p ∈ (log.filterMap ackCall).flatten, p.1 ≠ claim.taskID
  /-- The heartbeat is there before the handler. -/
  started : ∀ claim ∈ claims, runs env claim = true →
    OnlyAfter log (.handle claim.taskID claim.leaseID) (.startBeat claim.taskID claim.leaseID)
  acked : ∀ claim ∈ claims, succeededTask env claim = true →
    OnlyAfter log (.stopBeat claim.taskID claim.leaseID) .ackReturned
  failed : ∀ claim ∈ claims, failedTask env claim = true →
    OnlyAfter log (.stopBeat claim.taskID claim.leaseID)
      (.requeueReturned claim.taskID claim.leaseID)
  stopped : ∀ taskID leaseID before after, log = before ++ .startBeat taskID leaseID :: after →
    .stopBeat taskID leaseID ∈ after

/-! ## The runtimes -/

omit [BodyCodec Body] in
theorem foldl_addRuntime_of_not_mem {id : String} {claims : List (TaskClaim Body)}
    (h : id ∉ claims.map (·.taskID)) (rts : String → Option String) :
    claims.foldl addRuntime rts id = rts id := by
  induction claims generalizing rts with
  | nil => rfl
  | cons claim claims ih =>
    rw [List.map_cons, List.mem_cons, not_or] at h
    rw [List.foldl_cons, ih h.2, addRuntime]
    split
    · rfl
    · exact put_of_ne _ _ h.1

omit [BodyCodec Body] in
/-- With distinct ids each claim has its own entry. -/
theorem runtimes_of_mem {claims : List (TaskClaim Body)}
    (hdistinct : (claims.map (·.taskID)).Nodup) {claim : TaskClaim Body} (hmem : claim ∈ claims)
    (hid : claim.taskID ≠ "") : runtimes claims claim.taskID = some claim.leaseID := by
  obtain ⟨before, after, rfl⟩ := List.append_of_mem hmem
  rw [List.map_append, List.map_cons, List.nodup_append] at hdistinct
  have hafter : claim.taskID ∉ after.map (·.taskID) := (List.nodup_cons.mp hdistinct.2.1).1
  rw [runtimes, List.foldl_append, List.foldl_cons, foldl_addRuntime_of_not_mem hafter,
    addRuntime, if_neg hid, put_self]

omit [BodyCodec Body] in
theorem stopTask_of_mem {claims : List (TaskClaim Body)}
    (hdistinct : (claims.map (·.taskID)).Nodup) {claim : TaskClaim Body} (hmem : claim ∈ claims)
    (hid : claim.taskID ≠ "") :
    .stopBeat claim.taskID claim.leaseID ∈ stopTask (runtimes claims) claim.taskID := by
  rw [stopTask, runtimes_of_mem hdistinct hmem hid]
  exact List.mem_cons_self

/-! ## The events of one claim -/

/-- The retries that a claim asks for. -/
theorem claimEvents_requeues {env : BatchEnv Body} {claims : List (TaskClaim Body)}
    (hown : OwnBodies claims) {claim : TaskClaim Body} (hmem : claim ∈ claims)
    (rts : String → Option String) :
    (claimEvents env rts claim).filterMap requeueCall =
      if failedTask env claim then [claim.pair] else [] := by
  have hstop : ∀ id, (stopTask rts id).filterMap requeueCall = [] := by
    intro id
    unfold stopTask
    split <;> rfl
  have hreport : ∀ id status, (reportStatus id status).filterMap requeueCall = [] := by
    intro id status
    cases status <;> rfl
  cases hruns : runs env claim with
  | false =>
    rw [claimEvents, runClaim_of_not_runs hruns, failedTask, hruns]
    simp only [List.filterMap_cons, requeueCall, Bool.false_and, Bool.false_eq_true, if_false]
    split
    · rfl
    · exact hstop _
  | true =>
    obtain ⟨body, task, hbody, htask, heq⟩ := runClaim_of_runs hruns rts
    rw [claimEvents, heq, failedTask, hruns]
    cases hok : env.handlerOk claim with
    | true => rfl
    | false =>
      have hid : task.id = claim.taskID := hown.own claim hmem body task hbody htask
      simp only [failTask, List.filterMap_cons, List.cons_append, List.nil_append, requeueCall,
        Bool.false_eq_true, if_false, Bool.not_false,
        Bool.and_self, if_true, hid]
      cases env.requeueReply claim with
      | none => rfl
      | some status =>
        simp only [List.filterMap_append, hreport, hstop]
        rfl

/-- What can happen while the loop is at a claim. -/
inductive ClaimEvent (env : BatchEnv Body) (rts : String → Option String)
    (claim : TaskClaim Body) : BatchEvent → Prop
  | reach : ClaimEvent env rts claim (.reach claim.taskID claim.leaseID)
  | processing : ClaimEvent env rts claim (.processing claim.taskID claim.leaseID)
  | handle : ClaimEvent env rts claim (.handle claim.taskID claim.leaseID)
  | handled (ok : Bool) : ClaimEvent env rts claim (.handled claim.taskID claim.leaseID ok)
  | requeue : ClaimEvent env rts claim (.requeueOrDead claim.taskID claim.leaseID)
  | returned : ClaimEvent env rts claim (.requeueReturned claim.taskID claim.leaseID)
  | report (dead : Bool) : ClaimEvent env rts claim (.report claim.taskID dead)
  | stop {e : BatchEvent} (hok : succeededTask env claim = false)
      (he : e ∈ stopTask rts claim.taskID) : ClaimEvent env rts claim e

theorem claimEvent_of_mem_failTask {env : BatchEnv Body} {claim : TaskClaim Body}
    (hfail : succeededTask env claim = false) {task : ModelTask} (hid : task.id = claim.taskID)
    {rts : String → Option String} {e : BatchEvent} (h : e ∈ failTask env rts claim task) :
    ClaimEvent env rts claim e := by
  rcases mem_failTask h with rfl | rfl | ⟨dead, rfl⟩ | h
  · rw [hid]; exact .requeue
  · rw [hid]; exact .returned
  · rw [hid]; exact .report dead
  · rw [hid] at h; exact .stop hfail h

theorem mem_claimEvents {env : BatchEnv Body} {claims : List (TaskClaim Body)}
    (hown : OwnBodies claims) {claim : TaskClaim Body} (hmem : claim ∈ claims)
    {rts : String → Option String} {e : BatchEvent} (h : e ∈ claimEvents env rts claim) :
    ClaimEvent env rts claim e := by
  rcases List.mem_cons.mp h with rfl | h
  · exact .reach
  cases hruns : runs env claim with
  | false =>
    rw [runClaim_of_not_runs hruns] at h
    have hfail : succeededTask env claim = false := by rw [succeededTask, hruns, Bool.false_and]
    split at h
    · cases h
    · exact .stop hfail h
  | true =>
    obtain ⟨body, task, hbody, htask, heq⟩ := runClaim_of_runs hruns rts
    rw [heq] at h
    rcases List.mem_append.mp h with h | h
    · simp only [List.mem_cons, List.not_mem_nil, or_false] at h
      rcases h with rfl | rfl | rfl
      · exact .processing
      · exact .handle
      · exact .handled _
    · cases hok : env.handlerOk claim with
      | true => rw [hok] at h; cases h
      | false =>
        rw [hok] at h
        have hfail : succeededTask env claim = false := by
          rw [succeededTask, hok, Bool.and_false]
        exact claimEvent_of_mem_failTask hfail (hown.own claim hmem body task hbody htask) h

/-- A claim that fails: its heartbeat is not stopped before the script returned. -/
theorem claimEvents_of_failed {env : BatchEnv Body} {claims : List (TaskClaim Body)}
    (hown : OwnBodies claims) {claim : TaskClaim Body} (hmem : claim ∈ claims)
    (hfail : failedTask env claim = true) (rts : String → Option String) :
    ∃ early late, claimEvents env rts claim =
        early ++ .requeueReturned claim.taskID claim.leaseID :: late ∧
      ∀ taskID leaseID, .stopBeat taskID leaseID ∉ early := by
  rw [failedTask, Bool.and_eq_true, Bool.not_eq_true'] at hfail
  obtain ⟨hruns, hok⟩ := hfail
  obtain ⟨body, task, hbody, htask, heq⟩ := runClaim_of_runs hruns rts
  have hid : task.id = claim.taskID := hown.own claim hmem body task hbody htask
  rw [claimEvents, heq, hok, failTask, hid]
  refine ⟨[.reach claim.taskID claim.leaseID, .processing claim.taskID claim.leaseID,
    .handle claim.taskID claim.leaseID, .handled claim.taskID claim.leaseID false,
    .requeueOrDead claim.taskID claim.leaseID], _, rfl, ?_⟩
  intro taskID leaseID
  simp

/-! ## The whole iteration -/

omit [BodyCodec Body] in
theorem mem_startBeats {claims : List (TaskClaim Body)} {e : BatchEvent}
    (h : e ∈ startBeats claims) :
    ∃ claim ∈ claims, claim.taskID ≠ "" ∧ e = .startBeat claim.taskID claim.leaseID := by
  obtain ⟨claim, hmem, he⟩ := List.mem_flatMap.mp h
  split at he
  · cases he
  · rename_i hid
    exact ⟨claim, hmem, hid, List.mem_singleton.mp he⟩

omit [BodyCodec Body] in
theorem startBeats_of_mem {claims : List (TaskClaim Body)} {claim : TaskClaim Body}
    (hmem : claim ∈ claims) (hid : claim.taskID ≠ "") :
    .startBeat claim.taskID claim.leaseID ∈ startBeats claims := by
  refine List.mem_flatMap.mpr ⟨claim, hmem, ?_⟩
  rw [if_neg hid]
  exact List.mem_singleton.mpr rfl

omit [BodyCodec Body] in
theorem startBeats_none {α : Type} (claims : List (TaskClaim Body)) {f : BatchEvent → Option α}
    (hf : ∀ taskID leaseID, f (.startBeat taskID leaseID) = none) :
    (startBeats claims).filterMap f = [] := by
  rw [List.filterMap_eq_nil_iff]
  intro e he
  obtain ⟨claim, -, -, rfl⟩ := mem_startBeats he
  exact hf _ _

/-- The retries of the loop, in claim order. -/
theorem loop_requeues {env : BatchEnv Body} {claims : List (TaskClaim Body)}
    (hown : OwnBodies claims) (rts : String → Option String) :
    (claims.flatMap (claimEvents env rts)).filterMap requeueCall =
      (claims.filter (failedTask env)).map (·.pair) := by
  have hpick : ∀ l : List (TaskClaim Body),
      l.flatMap (fun claim => if failedTask env claim then [claim.pair] else []) =
        (l.filter (failedTask env)).map (·.pair) := by
    intro l
    induction l with
    | nil => rfl
    | cons claim l ih =>
      rw [List.flatMap_cons, ih]
      cases hfail : failedTask env claim <;> simp [hfail]
  rw [List.filterMap_flatMap, ← hpick]
  exact List.flatMap_congr fun claim hmem => claimEvents_requeues hown hmem rts

/-- Events of a kind that no claim has do not occur in the loop. -/
theorem loop_filterMap_eq_nil {α : Type} {env : BatchEnv Body} {claims : List (TaskClaim Body)}
    (hown : OwnBodies claims) {rts : String → Option String} {f : BatchEvent → Option α}
    (hf : ∀ claim ∈ claims, ∀ e, ClaimEvent env rts claim e → f e = none) :
    (claims.flatMap (claimEvents env rts)).filterMap f = [] := by
  rw [List.filterMap_eq_nil_iff]
  intro e he
  obtain ⟨claim, hmem, he⟩ := List.mem_flatMap.mp he
  exact hf claim hmem e (mem_claimEvents hown hmem he)

omit [BodyCodec Body] in
/-- The end of the batch only stops heartbeats. -/
theorem mem_closeEvents {env : BatchEnv Body} {claims : List (TaskClaim Body)} {e : BatchEvent}
    (h : e ∈ closeEvents env claims) :
    (∃ id, e ∈ stopTask (runtimes claims) id) ∨ e = .clearLeases (claimedIDs claims) := by
  rcases List.mem_append.mp h with h | h
  · obtain ⟨id, -, he⟩ := List.mem_flatMap.mp h
    exact .inl ⟨id, he⟩
  · exact .inr (List.mem_singleton.mp h)

omit [BodyCodec Body] in
theorem closeEvents_none {α : Type} (env : BatchEnv Body) (claims : List (TaskClaim Body))
    {f : BatchEvent → Option α}
    (hstop : ∀ taskID leaseID, f (.stopBeat taskID leaseID) = none ∧
      f (.cancelTask taskID leaseID) = none)
    (hclear : ∀ taskIDs, f (.clearLeases taskIDs) = none) :
    (closeEvents env claims).filterMap f = [] := by
  rw [List.filterMap_eq_nil_iff]
  intro e he
  rcases mem_closeEvents he with ⟨id, he⟩ | rfl
  · obtain ⟨leaseID, rfl | rfl⟩ := mem_stopTask he
    · exact (hstop id leaseID).1
    · exact (hstop id leaseID).2
  · exact hclear _

omit [BodyCodec Body] in
/-- It stops all of them. -/
theorem closeEvents_of_mem (env : BatchEnv Body) {claims : List (TaskClaim Body)}
    (hdistinct : (claims.map (·.taskID)).Nodup) {claim : TaskClaim Body} (hmem : claim ∈ claims)
    (hid : claim.taskID ≠ "") :
    .stopBeat claim.taskID claim.leaseID ∈ closeEvents env claims := by
  have hkey : claim.taskID ∈ (claimedIDs claims).dedup := by
    refine List.mem_dedup.mpr (List.mem_filter.mpr ⟨List.mem_map_of_mem hmem, ?_⟩)
    exact decide_eq_true hid
  refine List.mem_append_left _ (List.mem_flatMap.mpr ⟨claim.taskID, ?_, ?_⟩)
  · exact (env.mapOrder_perm _).mem_iff.mpr hkey
  · exact stopTask_of_mem hdistinct hmem hid

variable {env : BatchEnv Body} {claims : List (TaskClaim Body)}

theorem iteration_requeues (hown : OwnBodies claims) :
    (workerIteration env claims).filterMap requeueCall =
      (claims.filter (failedTask env)).map (·.pair) := by
  by_cases hne : claims = []
  · subst hne; rfl
  have hstart := startBeats_none (f := requeueCall) claims fun _ _ => rfl
  have hack : ∀ ids leases, (ackEvents env ids leases).filterMap requeueCall = [] := by
    intro ids leases
    rw [List.filterMap_eq_nil_iff]
    intro e he
    rcases mem_ackEvents he with rfl | rfl | ⟨_, rfl⟩ <;> rfl
  have hclose := closeEvents_none env claims (f := requeueCall) (fun _ _ => ⟨rfl, rfl⟩) fun _ => rfl
  rw [workerIteration_eq hne]
  simp only [List.filterMap_append, List.filterMap_cons, requeueCall, hstart, hack, hclose,
    loop_requeues hown, List.nil_append, List.append_nil]

theorem iteration_acks (hown : OwnBodies claims) :
    (workerIteration env claims).filterMap ackCall =
      if claims.filter (succeededTask env) = [] then []
      else [(claims.filter (succeededTask env)).map (·.pair)] := by
  by_cases hne : claims = []
  · subst hne; rfl
  have hstart := startBeats_none claims (f := ackCall) fun _ _ => rfl
  have hloop : (claims.flatMap (claimEvents env (runtimes claims))).filterMap ackCall = [] := by
    refine loop_filterMap_eq_nil hown fun claim _ e he => ?_
    cases he with
    | stop _ he => obtain ⟨leaseID, rfl | rfl⟩ := mem_stopTask he <;> rfl
    | _ => rfl
  have hclose := closeEvents_none env claims (f := ackCall) (fun _ _ => ⟨rfl, rfl⟩) fun _ => rfl
  rw [workerIteration_eq hne]
  simp only [List.filterMap_append, List.filterMap_cons, ackCall, hstart, hloop, hclose,
    List.nil_append, List.append_nil]
  unfold ackEvents
  by_cases hsucc : claims.filter (succeededTask env) = []
  · rw [hsucc]
    rfl
  · rw [if_neg (by simpa using hsucc), if_neg hsucc]
    have hzip : ((claims.filter (succeededTask env)).map (·.taskID)).zip
        ((claims.filter (succeededTask env)).map (·.leaseID)) =
        (claims.filter (succeededTask env)).map (·.pair) := List.zip_map'
    cases env.ackReply with
    | none => simp only [List.filterMap_cons, ackCall, hzip, List.filterMap_nil]
    | some acked =>
      have hacked : (acked.map BatchEvent.succeeded).filterMap ackCall = [] := by
        simp [List.filterMap_eq_nil_iff, ackCall]
      simp only [List.filterMap_cons, ackCall, hzip, hacked]

/-- What is acknowledged are the successes. -/
theorem iteration_acked_pairs (hown : OwnBodies claims) :
    ((workerIteration env claims).filterMap ackCall).flatten =
      (claims.filter (succeededTask env)).map (·.pair) := by
  rw [iteration_acks hown]
  split
  · rename_i hsucc
    rw [hsucc]
    rfl
  · simp

omit [BodyCodec Body] in
/-- With distinct ids a claim is known by its id. -/
theorem claim_eq_of_id (hdistinct : (claims.map (·.taskID)).Nodup) {c d : TaskClaim Body}
    (hc : c ∈ claims) (hd : d ∈ claims) (hid : c.taskID = d.taskID) : c = d :=
  List.inj_on_of_nodup_map hdistinct hc hd hid

theorem iteration_apart (hown : OwnBodies claims) :
    ∀ p ∈ (workerIteration env claims).filterMap requeueCall,
      ∀ q ∈ ((workerIteration env claims).filterMap ackCall).flatten, p.1 ≠ q.1 := by
  rw [iteration_requeues hown, iteration_acked_pairs hown]
  intro p hp q hq hpq
  obtain ⟨c, hc, rfl⟩ := List.mem_map.mp hp
  obtain ⟨d, hd, rfl⟩ := List.mem_map.mp hq
  obtain ⟨hcmem, hcfail⟩ := List.mem_filter.mp hc
  obtain ⟨hdmem, hdok⟩ := List.mem_filter.mp hd
  obtain rfl := claim_eq_of_id hown.distinct hcmem hdmem hpq
  simp only [failedTask, succeededTask, Bool.and_eq_true, Bool.not_eq_true'] at hcfail hdok
  rw [hdok.2] at hcfail
  cases hcfail.2

theorem iteration_skipped (hown : OwnBodies claims) {claim : TaskClaim Body}
    (hmem : claim ∈ claims) (hruns : runs env claim = false) :
    (∀ p ∈ (workerIteration env claims).filterMap requeueCall, p.1 ≠ claim.taskID) ∧
      ∀ p ∈ ((workerIteration env claims).filterMap ackCall).flatten, p.1 ≠ claim.taskID := by
  -- whatever is sent for the id is sent for this claim, which was not run
  have hsame : ∀ kind : TaskClaim Body → Bool, kind claim = false →
      ∀ p ∈ (claims.filter kind).map (·.pair), p.1 ≠ claim.taskID := by
    intro kind hkind p hp hid
    obtain ⟨c, hc, rfl⟩ := List.mem_map.mp hp
    obtain ⟨hcmem, hckind⟩ := List.mem_filter.mp hc
    obtain rfl := claim_eq_of_id hown.distinct hcmem hmem hid
    rw [hckind] at hkind
    cases hkind
  rw [iteration_requeues hown, iteration_acked_pairs hown]
  refine ⟨hsame _ ?_, hsame _ ?_⟩
  · rw [failedTask, hruns, Bool.false_and]
  · rw [succeededTask, hruns, Bool.false_and]

/-! ## The order of calls and stops -/

omit [BodyCodec Body] in
theorem id_ne_of_runs [BodyCodec Body] {claim : TaskClaim Body} (h : runs env claim = true) :
    claim.taskID ≠ "" := by
  rw [runs, Bool.and_eq_true, decide_eq_true_iff] at h
  exact h.1

/-- The heartbeats come first. -/
theorem iteration_started {claim : TaskClaim Body} (hmem : claim ∈ claims)
    (hruns : runs env claim = true) :
    OnlyAfter (workerIteration env claims) (.handle claim.taskID claim.leaseID)
      (.startBeat claim.taskID claim.leaseID) := by
  obtain ⟨early, late, hsplit⟩ :=
    List.append_of_mem (startBeats_of_mem hmem (id_ne_of_runs hruns))
  have hearly : .handle claim.taskID claim.leaseID ∉
      BatchEvent.markLeases (claimedIDs claims) :: early := by
    intro h
    rcases List.mem_cons.mp h with h | h
    · cases h
    · have hstart : .handle claim.taskID claim.leaseID ∈ startBeats claims := by
        rw [hsplit]
        exact List.mem_append_left _ h
      obtain ⟨_, -, -, heq⟩ := mem_startBeats hstart
      cases heq
  rw [workerIteration_eq (List.ne_nil_of_mem hmem), hsplit]
  simp only [List.append_assoc, List.cons_append]
  rw [← List.cons_append]
  exact .of_split hearly nofun

/-- The end of the batch stops every heartbeat. -/
theorem iteration_stopped (hown : OwnBodies claims) {taskID leaseID : String}
    {before after : List BatchEvent}
    (h : workerIteration env claims = before ++ .startBeat taskID leaseID :: after) :
    .stopBeat taskID leaseID ∈ after := by
  by_cases hne : claims = []
  · subst hne
    exact absurd h.symm (List.append_ne_nil_of_right_ne_nil _ (List.cons_ne_nil _ _))
  rw [workerIteration_eq hne] at h
  have hclose : .startBeat taskID leaseID ∉ closeEvents env claims := by
    intro hin
    rcases mem_closeEvents hin with ⟨id, he⟩ | he
    · obtain ⟨_, he | he⟩ := mem_stopTask he <;> cases he
    · cases he
  refine mem_after_of_split h hclose ?_
  -- it was started for a claim
  have hmem : .startBeat taskID leaseID ∈ startBeats claims := by
    have hin : .startBeat taskID leaseID ∈ before ++ .startBeat taskID leaseID :: after :=
      List.mem_append_right _ List.mem_cons_self
    rw [← h] at hin
    simp only [List.mem_append, List.mem_cons, reduceCtorEq, false_or, hclose, or_false] at hin
    rcases hin with (hin | hin) | hin
    · exact hin
    · obtain ⟨claim, hmem, hin⟩ := List.mem_flatMap.mp hin
      cases mem_claimEvents hown hmem hin with
      | stop _ he => obtain ⟨_, he | he⟩ := mem_stopTask he <;> cases he
    · rcases mem_ackEvents hin with h | h | ⟨_, h⟩ <;> cases h
  obtain ⟨claim, hclaim, hid, heq⟩ := mem_startBeats hmem
  obtain ⟨rfl, rfl⟩ := BatchEvent.startBeat.inj heq
  exact closeEvents_of_mem env hown.distinct hclaim hid

/-- A heartbeat is not stopped while the loop is at other claims, nor at its own if that
succeeds. -/
theorem stopBeat_not_mem_loop (hown : OwnBodies claims) {part : List (TaskClaim Body)}
    {taskID leaseID : String}
    (hpart : ∀ d ∈ part, d ∈ claims ∧ (d.taskID = taskID → succeededTask env d = true))
    (rts : String → Option String) :
    .stopBeat taskID leaseID ∉ part.flatMap (claimEvents env rts) := by
  intro h
  obtain ⟨d, hd, he⟩ := List.mem_flatMap.mp h
  obtain ⟨hmem, hsucc⟩ := hpart d hd
  cases mem_claimEvents hown hmem he with
  | stop hok he =>
    obtain ⟨_, he | he⟩ := mem_stopTask he
    · rw [hsucc (BatchEvent.stopBeat.inj he).1.symm] at hok
      cases hok
    · cases he

omit [BodyCodec Body] in
theorem stopBeat_not_mem_start {taskID leaseID : String} :
    .stopBeat taskID leaseID ∉ BatchEvent.markLeases (claimedIDs claims) :: startBeats claims := by
  intro h
  rcases List.mem_cons.mp h with h | h
  · cases h
  · obtain ⟨_, -, -, heq⟩ := mem_startBeats h
    cases heq

/-- A heartbeat of a success stops after the acknowledgement. -/
theorem iteration_acked (hown : OwnBodies claims) {claim : TaskClaim Body}
    (hmem : claim ∈ claims) (hsucc : succeededTask env claim = true) :
    OnlyAfter (workerIteration env claims) (.stopBeat claim.taskID claim.leaseID)
      .ackReturned := by
  have hloop : .stopBeat claim.taskID claim.leaseID ∉
      claims.flatMap (claimEvents env (runtimes claims)) := by
    refine stopBeat_not_mem_loop hown (fun d hd => ⟨hd, fun hid => ?_⟩) _
    rw [claim_eq_of_id hown.distinct hd hmem hid]
    exact hsucc
  have hids : (claims.filter (succeededTask env)).map (·.taskID) ≠ [] := by
    have hin : claim ∈ claims.filter (succeededTask env) := List.mem_filter.mpr ⟨hmem, hsucc⟩
    simpa using List.ne_nil_of_mem hin
  rw [workerIteration_eq (List.ne_nil_of_mem hmem), ackEvents, if_neg hids]
  generalize hearly : BatchEvent.markLeases (claimedIDs claims) :: startBeats claims ++
    claims.flatMap (claimEvents env (runtimes claims)) = early
  have hnot : .stopBeat claim.taskID claim.leaseID ∉ early := by
    rw [← hearly]
    exact fun h => (List.mem_append.mp h).elim stopBeat_not_mem_start hloop
  rw [List.append_assoc, List.cons_append, List.cons_append, List.append_cons]
  refine .of_split (fun h => ?_) nofun
  rcases List.mem_append.mp h with h | h
  · exact hnot h
  · cases List.mem_singleton.mp h

/-- A heartbeat of a failure stops after the retry was asked for. -/
theorem iteration_failed (hown : OwnBodies claims) {claim : TaskClaim Body}
    (hmem : claim ∈ claims) (hfail : failedTask env claim = true) :
    OnlyAfter (workerIteration env claims) (.stopBeat claim.taskID claim.leaseID)
      (.requeueReturned claim.taskID claim.leaseID) := by
  obtain ⟨before, after, rfl⟩ := List.append_of_mem hmem
  have hdistinct := hown.distinct
  rw [List.map_append, List.map_cons, List.nodup_append] at hdistinct
  -- the claims before have other ids
  have hbefore : .stopBeat claim.taskID claim.leaseID ∉
      before.flatMap (claimEvents env (runtimes (before ++ claim :: after))) := by
    refine stopBeat_not_mem_loop hown
      (fun d hd => ⟨List.mem_append_left _ hd, fun hid => ?_⟩) _
    exact absurd hid
      (hdistinct.2.2 _ (List.mem_map_of_mem hd) _ (List.mem_cons_self (a := claim.taskID)))
  obtain ⟨early, late, hsplit, hearly⟩ :=
    claimEvents_of_failed hown hmem hfail (runtimes (before ++ claim :: after))
  rw [workerIteration_eq (List.ne_nil_of_mem hmem), List.flatMap_append, List.flatMap_cons, hsplit]
  generalize hpre : BatchEvent.markLeases (claimedIDs (before ++ claim :: after)) ::
    startBeats (before ++ claim :: after) = start
  have hstart : .stopBeat claim.taskID claim.leaseID ∉ start := hpre ▸ stopBeat_not_mem_start
  generalize before.flatMap (claimEvents env (runtimes (before ++ claim :: after))) = done
    at hbefore ⊢
  simp only [List.append_assoc, List.cons_append]
  rw [← List.append_assoc, ← List.append_assoc]
  refine .of_split (fun h => ?_) nofun
  rcases List.mem_append.mp h with h | h
  · exact (List.mem_append.mp h).elim hstart hbefore
  · exact hearly _ _ h

/-- **A batch.** For every batch of distinct tasks whose bodies name their own ids, every
set of handlers, every result of the handlers and every reply of the scripts: the iteration
asks for one retry for each failed task under its own lease, acknowledges the successes in
claim order with one call (no call if there are none), and stops every heartbeat, that of a
failed or successful task only after the call that settles it returned. -/
theorem iteration_settles_batch (env : BatchEnv Body) {claims : List (TaskClaim Body)}
    (hown : OwnBodies claims) : SettlesOnce env claims (workerIteration env claims) where
  requeues := iteration_requeues hown
  acks := iteration_acks hown
  apart := iteration_apart hown
  skipped _ hmem hruns := iteration_skipped hown hmem hruns
  started _ hmem hruns := iteration_started hmem hruns
  acked _ hmem hsucc := iteration_acked hown hmem hsucc
  failed _ hmem hfail := iteration_failed hown hmem hfail
  stopped _ _ _ _ h := iteration_stopped hown h

end

/-! ## Two batches -/

/-- The worker of the examples: e-mails are handled, and `bad` fails. -/
def sampleEnv : BatchEnv JsonBody where
  registered taskType := taskType == "email"
  handlerOk claim := claim.taskID != "bad"
  requeueReply _ := some .scheduled
  ackReply := some ["good"]
  mapOrder := List.reverse
  mapOrder_perm := List.reverse_perm

/-- A claimed e-mail. -/
def emailClaim (id leaseID : String) : TaskClaim JsonBody where
  taskID := id
  leaseID := leaseID
  body := some (marshal
    { id := id, taskType := "email", payload := none, maxRetries := 2, attempts := 0 })

/-- A failure, a success and a task without a body. -/
theorem iteration_settles_batch_mixed :
    SettlesOnce sampleEnv
      [emailClaim "bad" "L1", emailClaim "good" "L2", ⟨"gone", "L3", none⟩]
      (workerIteration sampleEnv
        [emailClaim "bad" "L1", emailClaim "good" "L2", ⟨"gone", "L3", none⟩]) := by
  refine iteration_settles_batch sampleEnv ⟨by decide, ?_⟩
  intro claim hmem body task hbody htask
  simp only [List.mem_cons, List.not_mem_nil, or_false] at hmem
  rcases hmem with rfl | rfl | rfl
  · obtain rfl := Option.some.inj hbody
    obtain rfl := Option.some.inj htask
    rfl
  · obtain rfl := Option.some.inj hbody
    obtain rfl := Option.some.inj htask
    rfl
  · cases hbody

/-- **No empty acknowledgement.** When every handler fails, no `ackBatch` is sent at all. -/
theorem no_ack_without_success :
    OwnBodies [emailClaim "bad" "L1"] ∧
      (workerIteration sampleEnv [emailClaim "bad" "L1"]).filterMap ackCall = [] ∧
      (workerIteration sampleEnv [emailClaim "bad" "L1"]).filterMap ackCall ≠
        [([emailClaim "bad" "L1"].filter (succeededTask sampleEnv)).map (·.pair)] := by
  refine ⟨⟨by decide, ?_⟩, by decide +kernel, by decide +kernel⟩
  intro claim hmem body task hbody htask
  obtain rfl := List.mem_singleton.mp hmem
  obtain rfl := Option.some.inj hbody
  obtain rfl := Option.some.inj htask
  rfl

end ForgeQueue
