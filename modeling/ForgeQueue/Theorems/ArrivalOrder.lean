import ForgeQueue.Base.Arrivals
import ForgeQueue.Logic.Gaps
import ForgeQueue.Model.JsonBody

/-!
# The order in which ready tasks are claimed

`RouteTask` pushes at the head of the ready list (`LPUSH`) and the claim script pops there
too (`LPOP`), so the two together are a stack: the engine refines `Base.Arrivals`, whose
`push` and `pop` work at one end. A claim is in the order of arrival exactly when no more
than one task is ready.
-/

namespace ForgeQueue

open Base

variable {Body : Type}

/-! ## The history as arrivals -/

/-- The ids pushed to the ready list, oldest first. -/
def pushedIDs (log : List Event) : List String :=
  log.reverse.filterMap fun
    | .enqueued a => some a.id
    | _ => none

/-- The ids handed out by claims, oldest first, in the order of their positions. -/
def servedIDs (log : List Event) : List String :=
  log.reverse.filterMap fun
    | .claimed taskID _ _ => some taskID
    | _ => none

/-- What arrived in the ready list, what was claimed from it and what is ready. -/
def Engine.arrivals (e : Engine Body) : Arrivals String where
  arrived := pushedIDs e.log
  served := servedIDs e.log
  waiting := e.redis.immediate

variable [BodyCodec Body]

theorem arrivals_routeBody (e : Engine Body) (now : ℚ) (a : RouteArgs) :
    (e.exec ⟨now, .routeBody a⟩).arrivals = e.arrivals := by
  simp [Engine.arrivals, Engine.exec, Redis.events, Redis.after, pushedIDs, servedIDs]

/-- An immediate enqueue is a push. -/
theorem arrivals_routePush (e : Engine Body) (now clock : ℚ) {a : RouteArgs}
    (ha : a.delaySeconds ≤ 0) :
    (e.exec ⟨now, .routePush a clock⟩).arrivals = e.arrivals.push a.id := by
  have htarget : routeTarget clock a = none := if_neg (Int64.not_lt.mpr ha)
  simp [Engine.arrivals, Engine.exec, Redis.events, Redis.after, pushedIDs, servedIDs,
    Arrivals.push, htarget, routePush]

omit [BodyCodec Body] in
/-- What a claim leaves ready. -/
theorem claimLoop_immediate (expiry : ℚ) (leaseIDs : List String) :
    ∀ r : Redis Body,
      (claimLoop expiry leaseIDs r).1.immediate = r.immediate.drop leaseIDs.length := by
  induction leaseIDs with
  | nil => exact fun _ => rfl
  | cons leaseID rest ih =>
    intro r
    cases hr : r.immediate with
    | nil => simp [claimLoop, hr]
    | cons taskID ready => simp [claimLoop, hr, ih]

omit [BodyCodec Body] in
/-- The ids an unpaused claim returns. -/
theorem claimBatch_ids {r : Redis Body} (hp : r.paused = false) (leaseIDs : List String)
    (expiry : ℚ) :
    (claimBatch leaseIDs expiry r).2.map TaskClaim.taskID =
      r.immediate.take leaseIDs.length := by
  rw [claimBatch_eq hp, List.map_zipWith]
  show List.zipWith (fun taskID _ => taskID) (r.immediate.take leaseIDs.length) leaseIDs = _
  rw [← List.map_uncurry_zip_eq_zipWith]
  refine List.map_fst_zip ?_
  rw [List.length_take]
  exact min_le_left _ _

/-- A claim is a pop, of as many tasks as it has tokens. -/
theorem arrivals_claimBatch {e : Engine Body} (hp : e.redis.paused = false) (now : ℚ)
    (leaseIDs : List String) (expiry : ℚ) :
    (e.exec ⟨now, .claimBatch leaseIDs expiry⟩).arrivals = e.arrivals.pop leaseIDs.length := by
  have hready : (claimBatch leaseIDs expiry e.redis).1.immediate =
      e.redis.immediate.drop leaseIDs.length := by
    rw [claimBatch_eq hp]
    exact claimLoop_immediate expiry leaseIDs e.redis
  simp [Engine.arrivals, Engine.exec, Redis.events, Redis.after, pushedIDs, servedIDs,
    Arrivals.pop, hready, ← claimBatch_ids hp leaseIDs expiry, List.filterMap_map]

/-! ## Runs of enqueues and claims -/

/-- Successful immediate enqueues, each with an id of its own, and claims of any batch size;
`claimBatch` raises a batch size below 1 to 1. -/
def QueueCall (e : Engine Body) (c : Call Body) : Prop :=
  match c.op with
  | .routeBody _ => True
  | .routePush a _ => a.delaySeconds ≤ 0 ∧ a.id ∉ pushedIDs e.log
  | .claimBatch leaseIDs _ => leaseIDs ≠ []
  | _ => False

/-- Every task is in one place, newest ready first, and nobody pauses the queue. -/
structure Stacked (e : Engine Body) : Prop where
  waits : e.arrivals.Waits
  running : e.redis.paused = false

omit [BodyCodec Body] in
theorem Stacked.init : Stacked (Engine.init : Engine Body) where
  waits := ⟨List.nodup_nil, by rintro x ⟨⟩, List.Sublist.slnil⟩
  running := rfl

/-- What one call of the run does to the arrivals. -/
theorem QueueCall.cases {e : Engine Body} {c : Call Body} (hok : QueueCall e c)
    (hp : e.redis.paused = false) :
    (e.exec c).redis.paused = false ∧
    ((e.exec c).arrivals = e.arrivals ∨
      (∃ id, id ∉ e.arrivals.arrived ∧ (e.exec c).arrivals = e.arrivals.push id) ∨
      ∃ leaseIDs expiry, c.op = .claimBatch leaseIDs expiry ∧
        (e.exec c).arrivals = e.arrivals.pop leaseIDs.length) := by
  obtain ⟨now, op⟩ := c
  cases op with
  | routeBody a => exact ⟨hp, .inl (arrivals_routeBody e now a)⟩
  | routePush a clock =>
    obtain ⟨hdelay, hfresh⟩ := hok
    have htarget : routeTarget clock a = none := if_neg (Int64.not_lt.mpr hdelay)
    refine ⟨?_, .inr (.inl ⟨a.id, hfresh, arrivals_routePush e now clock hdelay⟩)⟩
    show (routePush (routeTarget clock a) a.id e.redis).paused = false
    rw [htarget]
    exact hp
  | claimBatch leaseIDs expiry =>
    refine ⟨?_, .inr (.inr ⟨leaseIDs, expiry, rfl, arrivals_claimBatch hp now leaseIDs expiry⟩)⟩
    have hkeeps := (e.redis.after_trace now (.claimBatch leaseIDs expiry)).keeps
      (P := fun r => r.paused = false) ?_ hp
    · exact hkeeps
    · intro r ev r' hev heff hr
      obtain ⟨k, -, rfl⟩ := List.mem_map.mp hev
      cases heff
      exact hr
  | _ => exact hok.elim

/-- **Step.** -/
theorem Stacked.step {e : Engine Body} {c : Call Body} (h : Stacked e) (hok : QueueCall e c) :
    Stacked (e.exec c) := by
  obtain ⟨hp, heq | ⟨id, hfresh, heq⟩ | ⟨leaseIDs, -, -, heq⟩⟩ := hok.cases h.running
  · exact ⟨heq ▸ h.waits, hp⟩
  · exact ⟨heq ▸ h.waits.push hfresh, hp⟩
  · exact ⟨heq ▸ h.waits.pop leaseIDs.length, hp⟩

/-- A claim that finds more than one task ready is the only step that leaves the order. -/
theorem Stacked.caught_step {e : Engine Body} {c : Call Body} (h : Stacked e)
    (hok : QueueCall e c) (hcaught : e.arrivals.Caught)
    (hone : ∀ leaseIDs expiry, c.op = .claimBatch leaseIDs expiry →
      e.redis.immediate.length ≤ 1) : (e.exec c).arrivals.Caught := by
  obtain ⟨-, heq | ⟨id, -, heq⟩ | ⟨leaseIDs, expiry, hop, heq⟩⟩ := hok.cases h.running
  · exact heq ▸ hcaught
  · exact heq ▸ hcaught.push id
  · exact heq ▸ hcaught.pop (hone leaseIDs expiry hop) leaseIDs.length

theorem execAll_snoc (e : Engine Body) (cs : List (Call Body)) (c : Call Body) :
    e.execAll (cs ++ [c]) = (e.execAll cs).exec c := by
  rw [Engine.execAll, List.foldl_append]
  rfl

/-- Every call of a run is issued in the state its predecessors lead to. -/
theorem EngineRun.ok_at {ok : Engine Body → Call Body → Prop} {e e' : Engine Body}
    {cs before : List (Call Body)} {c : Call Body} (hrun : EngineRun ok e cs e')
    (hc : before ++ [c] <+: cs) : ok (e.execAll before) c := by
  obtain ⟨after, rfl⟩ := hc
  rw [List.append_assoc] at hrun
  obtain ⟨m, hbefore, hrest⟩ := Run.split hrun
  cases hrest with
  | cons hok _ _ => exact EngineRun.eq_execAll hbefore ▸ hok

/-- **Run.** -/
theorem Stacked.run {cs : List (Call Body)} {e : Engine Body}
    (hrun : EngineRun QueueCall .init cs e) (before : List (Call Body)) :
    before <+: cs → Stacked (Engine.init.execAll before) := by
  induction before using List.reverseRecOn with
  | nil => exact fun _ => .init
  | append_singleton before c ih =>
    intro hc
    rw [execAll_snoc]
    exact (ih ((List.prefix_append _ _).trans hc)).step (hrun.ok_at hc)

/-- **Claims are in the order of arrival exactly when they find no more than one task
ready.** In every run of immediate enqueues and claims: in every state reached, whatever
was claimed had everything claimed before it that was pushed before it, if and only if
every claim of the run was made when at most one task was ready. -/
theorem claims_in_arrival_order_iff {cs : List (Call Body)} {e : Engine Body}
    (hrun : EngineRun QueueCall .init cs e) :
    (∀ before, before <+: cs → (Engine.init.execAll before).arrivals.InOrder) ↔
      ∀ before now leaseIDs expiry, before ++ [⟨now, .claimBatch leaseIDs expiry⟩] <+: cs →
        (Engine.init.execAll before).redis.immediate.length ≤ 1 := by
  constructor
  · intro hin before now leaseIDs expiry hc
    by_contra hmany
    have hstacked := Stacked.run hrun before ((List.prefix_append _ _).trans hc)
    have htokens : leaseIDs ≠ [] := hrun.ok_at hc
    have hbroken := hin _ hc
    rw [execAll_snoc, arrivals_claimBatch hstacked.running] at hbroken
    exact hstacked.waits.pop_overtakes (List.length_pos_of_ne_nil htokens)
      (by show 2 ≤ _; exact not_le.mp hmany) hbroken
  · intro hone before hbefore
    have hcaught : (Engine.init.execAll before : Engine Body).arrivals.Caught := by
      induction before using List.reverseRecOn with
      | nil => rfl
      | append_singleton before c ih =>
        have hprefix := (List.prefix_append before [c]).trans hbefore
        rw [execAll_snoc]
        refine (Stacked.run hrun before hprefix).caught_step (hrun.ok_at hbefore)
          (ih hprefix) ?_
        intro leaseIDs expiry hop
        obtain ⟨now, op⟩ := c
        obtain rfl : op = .claimBatch leaseIDs expiry := hop
        exact hone before now leaseIDs expiry hbefore
    exact hcaught.inOrder (Stacked.run hrun before hbefore).waits

/-- A task for evaluations, and one that is enqueued after it. -/
def olderArgs : RouteArgs := { sampleArgs with id := "older" }

@[inherit_doc olderArgs]
def newerArgs : RouteArgs := { sampleArgs with id := "newer" }

/-- Each task is claimed before the next one arrives. -/
def alternatingCalls : List (Call JsonBody) :=
  [⟨0, .routeBody olderArgs⟩, ⟨0, .routePush olderArgs 0⟩, ⟨1, .claimBatch ["L1"] 31⟩,
    ⟨2, .routeBody newerArgs⟩, ⟨2, .routePush newerArgs 2⟩, ⟨3, .claimBatch ["L2"] 33⟩]

theorem claims_in_arrival_order_iff_alternating :
    (Engine.init.execAll alternatingCalls).arrivals.InOrder := by
  have hrun : EngineRun QueueCall .init alternatingCalls
      (Engine.init.execAll alternatingCalls) := by
    refine .cons trivial rfl (.cons ⟨by decide, by decide +kernel⟩ rfl (.cons ?_ rfl
      (.cons trivial rfl (.cons ⟨by decide, by decide +kernel⟩ rfl (.cons ?_ rfl .nil)))))
    · exact List.cons_ne_nil _ _
    · exact List.cons_ne_nil _ _
  refine (claims_in_arrival_order_iff hrun).mpr ?_ _ List.prefix_rfl
  intro before now leaseIDs expiry hc
  have hshort : ∀ n ≤ 6, (Engine.init.execAll (alternatingCalls.take n) :
      Engine JsonBody).redis.immediate.length ≤ 1 := by
    decide +kernel
  have hbefore : before = alternatingCalls.take before.length :=
    List.prefix_iff_eq_take.mp ((List.prefix_append _ _).trans hc)
  rw [hbefore]
  exact hshort _ ((List.prefix_append _ _).trans hc).length_le

/-- Both tasks are pushed before the first claim. -/
def overtakingCalls : List (Call JsonBody) :=
  [⟨0, .routeBody olderArgs⟩, ⟨0, .routePush olderArgs 0⟩, ⟨1, .routeBody newerArgs⟩,
    ⟨1, .routePush newerArgs 1⟩, ⟨2, .claimBatch ["L1"] 32⟩]

/-- The newer task is claimed first, and the older one waits. -/
theorem claims_in_arrival_order_overtaken :
    ¬ ∀ (cs : List (Call JsonBody)) e, EngineRun QueueCall .init cs e →
      e.arrivals.InOrder := by
  intro hall
  have hrun : EngineRun QueueCall .init overtakingCalls
      (Engine.init.execAll overtakingCalls) := by
    refine .cons trivial rfl (.cons ⟨by decide, by decide +kernel⟩ rfl
      (.cons trivial rfl (.cons ⟨by decide, by decide +kernel⟩ rfl (.cons ?_ rfl .nil))))
    exact List.cons_ne_nil _ _
  have hin := hall _ _ hrun "older" "newer"
  revert hin
  decide +kernel

end ForgeQueue
