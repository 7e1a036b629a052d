import ForgeQueue.Theorems.BatchSettlement
import Mathlib.Data.List.Chain

/-!
# Handlers on lost leases

A heartbeat that is rejected cancels the context of its task, but the loop never looks at
that context before it writes `Processing` and calls the handler. A task that lost its lease
while it waited for its turn is therefore still run; this is the only way in which a handler
is started on a lost lease (`handlers_start_held_iff`).
-/

namespace ForgeQueue

open Base

/-- The heartbeat of the claim was rejected and the context of its task is cancelled. -/
def Lost (log : List BatchEvent) (taskID leaseID : String) : Prop :=
  .beat taskID leaseID .leaseLost ∈ log ∧ (.cancelTask taskID leaseID ∈ log ∨ .shutdown ∈ log)

/-- The loop came to the claim when that was lost already. -/
def ReachedLost (log : List BatchEvent) (taskID leaseID : String) : Prop :=
  ∃ before after, log = before ++ .reach taskID leaseID :: after ∧ Lost before taskID leaseID

/-- A claim that was lost when the loop came to it is not written to the journal and its
handler is not called. -/
def NoLostStart (log : List BatchEvent) : Prop :=
  ∀ taskID leaseID before after, log = before ++ .reach taskID leaseID :: after →
    Lost before taskID leaseID →
    .processing taskID leaseID ∉ after ∧ .handle taskID leaseID ∉ after

section

variable {Body : Type} [BodyCodec Body]

/-- The loop has come to the claim: its events are the next ones. -/
def AtClaim (env : BatchEnv Body) (claims : List (TaskClaim Body)) (s : Batch)
    (claim : TaskClaim Body) : Prop :=
  claim ∈ claims ∧ ∃ rest, s.rest = claimEvents env (runtimes claims) claim ++ rest

/-- A claim that the loop takes up next and that has an id, a body and a handler is not
lost. -/
def TakesUpHeld (env : BatchEnv Body) (claims : List (TaskClaim Body)) (s : Batch)
    (act : BatchAct) : Prop :=
  ∀ claim, act = .loop → AtClaim env claims s claim → runs env claim = true →
    ¬ Lost s.log claim.taskID claim.leaseID

end

/-! ## Histories -/

theorem Lost.mono {log log' : List BatchEvent} {taskID leaseID : String}
    (h : Lost log taskID leaseID) (hsub : log <+: log') : Lost log' taskID leaseID :=
  ⟨hsub.subset h.1, h.2.imp (hsub.subset ·) (hsub.subset ·)⟩

theorem noLostStart_nil : NoLostStart [] := by
  intro taskID leaseID before after h
  exact absurd h.symm (List.append_ne_nil_of_right_ne_nil _ (List.cons_ne_nil _ _))

/-- One more event is fine, unless it starts a claim that was reached lost. -/
theorem noLostStart_snoc {log : List BatchEvent} {e : BatchEvent} (h : NoLostStart log)
    (he : ∀ taskID leaseID, e = .processing taskID leaseID ∨ e = .handle taskID leaseID →
      ¬ ReachedLost log taskID leaseID) : NoLostStart (log ++ [e]) := by
  intro taskID leaseID before after hsplit hlost
  rcases List.eq_nil_or_concat' after with rfl | ⟨after, e', rfl⟩
  · exact ⟨List.not_mem_nil, List.not_mem_nil⟩
  · rw [← List.cons_append, ← List.append_assoc] at hsplit
    obtain ⟨rfl, heq⟩ := List.append_inj' hsplit rfl
    obtain rfl := (List.cons.inj heq).1
    obtain ⟨hproc, hhandle⟩ := h taskID leaseID before after rfl hlost
    have hreached : ReachedLost (before ++ .reach taskID leaseID :: after) taskID leaseID :=
      ⟨before, after, rfl, hlost⟩
    constructor
    · intro hin
      rcases List.mem_append.mp hin with hin | hin
      · exact hproc hin
      · exact he taskID leaseID (.inl (List.mem_singleton.mp hin).symm) hreached
    · intro hin
      rcases List.mem_append.mp hin with hin | hin
      · exact hhandle hin
      · exact he taskID leaseID (.inr (List.mem_singleton.mp hin).symm) hreached

/-- When the loop came to the claim for the last time, it was not lost. -/
def ReachedHeld (log : List BatchEvent) (taskID leaseID : String) : Prop :=
  ∃ before since, log = before ++ .reach taskID leaseID :: since ∧
    .reach taskID leaseID ∉ since ∧ ¬ Lost before taskID leaseID

theorem ReachedHeld.not_reachedLost {log : List BatchEvent} {taskID leaseID : String}
    (h : ReachedHeld log taskID leaseID) : ¬ ReachedLost log taskID leaseID := by
  obtain ⟨before, since, rfl, hlast, hheld⟩ := h
  rintro ⟨earlier, after, hsplit, hlost⟩
  exact hheld (hlost.mono (prefix_of_last hlast hsplit))

theorem ReachedHeld.snoc {log : List BatchEvent} {taskID leaseID : String} {e : BatchEvent}
    (h : ReachedHeld log taskID leaseID) (he : e ≠ .reach taskID leaseID) :
    ReachedHeld (log ++ [e]) taskID leaseID := by
  obtain ⟨before, since, rfl, hlast, hheld⟩ := h
  refine ⟨before, since ++ [e], by simp, fun hin => ?_, hheld⟩
  rcases List.mem_append.mp hin with hin | hin
  · exact hlast hin
  · exact he (List.mem_singleton.mp hin).symm

/-! ## The program of the loop -/

/-- `Processing` comes right after the claim is reached, the handler right after that. -/
def Leads (x y : BatchEvent) : Prop :=
  ∀ taskID leaseID, (y = .processing taskID leaseID → x = .reach taskID leaseID) ∧
    (y = .handle taskID leaseID → x = .processing taskID leaseID)

/-- An event that starts nothing. -/
def Plain (e : BatchEvent) : Prop :=
  ∀ taskID leaseID, e ≠ .processing taskID leaseID ∧ e ≠ .handle taskID leaseID

theorem Plain.leads {y : BatchEvent} (h : Plain y) (x : BatchEvent) : Leads x y :=
  fun taskID leaseID => ⟨fun hy => absurd hy (h taskID leaseID).1,
    fun hy => absurd hy (h taskID leaseID).2⟩

theorem isChain_of_plain {l : List BatchEvent} (h : ∀ e ∈ l, Plain e) : l.IsChain Leads := by
  refine List.Pairwise.isChain ?_
  exact List.pairwise_iff_forall_sublist.mpr fun hsub =>
    (h _ (hsub.subset (by simp))).leads _

/-- The loop comes to no claim in these events. -/
def NoReach (events : List BatchEvent) : Prop :=
  ∀ taskID leaseID, .reach taskID leaseID ∉ events

/-- Parts that begin with a plain event can be put together. -/
theorem isChain_append_plain {l m : List BatchEvent} (hl : l.IsChain Leads)
    (hm : m.IsChain Leads) (hhead : ∀ e ∈ m.head?, Plain e) : (l ++ m).IsChain Leads :=
  List.isChain_append.mpr ⟨hl, hm, fun x _ y hy => (hhead y hy).leads x⟩

section

variable {Body : Type} [BodyCodec Body]

theorem plain_of_mem_stopTask {rts : String → Option String} {id : String} {e : BatchEvent}
    (h : e ∈ stopTask rts id) : Plain e := by
  obtain ⟨_, rfl | rfl⟩ := mem_stopTask h <;> exact fun _ _ => ⟨nofun, nofun⟩

omit [BodyCodec Body] in
theorem plain_of_mem_failTask {env : BatchEnv Body} {rts : String → Option String}
    {claim : TaskClaim Body} {task : ModelTask} {e : BatchEvent}
    (h : e ∈ failTask env rts claim task) : Plain e := by
  rcases mem_failTask h with rfl | rfl | ⟨_, rfl⟩ | h
  · exact fun _ _ => ⟨nofun, nofun⟩
  · exact fun _ _ => ⟨nofun, nofun⟩
  · exact fun _ _ => ⟨nofun, nofun⟩
  · exact plain_of_mem_stopTask h

theorem claimEvents_isChain (env : BatchEnv Body) (rts : String → Option String)
    (claim : TaskClaim Body) : (claimEvents env rts claim).IsChain Leads := by
  have hreach : Plain (.reach claim.taskID claim.leaseID) := fun _ _ => ⟨by simp, by simp⟩
  cases hruns : runs env claim with
  | false =>
    rw [claimEvents, runClaim_of_not_runs hruns]
    refine isChain_of_plain fun e he => ?_
    rcases List.mem_cons.mp he with rfl | he
    · exact hreach
    · split at he
      · cases he
      · exact plain_of_mem_stopTask he
  | true =>
    obtain ⟨body, task, -, -, heq⟩ := runClaim_of_runs hruns rts
    rw [claimEvents, heq]
    simp only [List.cons_append, List.nil_append, List.isChain_cons_cons]
    have hhandled : Plain (.handled claim.taskID claim.leaseID (env.handlerOk claim)) :=
      fun _ _ => ⟨by simp, by simp⟩
    refine ⟨?_, ?_, hhandled.leads _, isChain_of_plain fun e he => ?_⟩
    · intro taskID leaseID
      exact ⟨fun h => by cases h; rfl, by simp⟩
    · intro taskID leaseID
      exact ⟨by simp, fun h => by cases h; rfl⟩
    · rcases List.mem_cons.mp he with rfl | he
      · exact hhandled
      · split at he
        · cases he
        · exact plain_of_mem_failTask he

/-- `Processing` is written for exactly the claims that are run. -/
theorem claimEvents_processing_iff (env : BatchEnv Body) (rts : String → Option String)
    (claim : TaskClaim Body) :
    (∃ rest, claimEvents env rts claim = .reach claim.taskID claim.leaseID ::
      .processing claim.taskID claim.leaseID :: rest) ↔ runs env claim = true := by
  cases hruns : runs env claim with
  | true =>
    obtain ⟨body, task, -, -, heq⟩ := runClaim_of_runs hruns rts
    rw [claimEvents, heq]
    exact ⟨fun _ => rfl, fun _ => ⟨_, rfl⟩⟩
  | false =>
    refine ⟨?_, by simp⟩
    rintro ⟨rest, h⟩
    rw [claimEvents, runClaim_of_not_runs hruns, List.cons.injEq] at h
    have hin : .processing claim.taskID claim.leaseID ∈
        if claim.taskID = "" then [] else stopTask rts claim.taskID := by
      have hrest : _ = BatchEvent.processing claim.taskID claim.leaseID :: rest := h.2
      dsimp only at hrest
      rw [hrest]
      exact List.mem_cons_self
    split at hin
    · cases hin
    · exact absurd rfl (plain_of_mem_stopTask hin claim.taskID claim.leaseID).1

omit [BodyCodec Body] in
/-- Before the loop come the start of the heartbeats and the page of the pool. -/
theorem plain_start {claims : List (TaskClaim Body)} :
    (∀ e ∈ BatchEvent.markLeases (claimedIDs claims) :: startBeats claims, Plain e) ∧
      NoReach (.markLeases (claimedIDs claims) :: startBeats claims) := by
  have hcases : ∀ e ∈ BatchEvent.markLeases (claimedIDs claims) :: startBeats claims,
      Plain e ∧ ∀ taskID leaseID, e ≠ .reach taskID leaseID := by
    intro e he
    rcases List.mem_cons.mp he with rfl | he
    · exact ⟨fun _ _ => ⟨nofun, nofun⟩, fun _ _ => nofun⟩
    · obtain ⟨_, -, -, rfl⟩ := mem_startBeats he
      exact ⟨fun _ _ => ⟨nofun, nofun⟩, fun _ _ => nofun⟩
  exact ⟨fun e he => (hcases e he).1, fun taskID leaseID he => (hcases _ he).2 _ _ rfl⟩

omit [BodyCodec Body] in
/-- After it come the acknowledgements and the end of the heartbeats. -/
theorem plain_end (env : BatchEnv Body) (claims : List (TaskClaim Body)) (ids leases : List String) :
    (∀ e ∈ ackEvents env ids leases ++ closeEvents env claims, Plain e) ∧
      NoReach (ackEvents env ids leases ++ closeEvents env claims) := by
  have hcases : ∀ e ∈ ackEvents env ids leases ++ closeEvents env claims,
      Plain e ∧ ∀ taskID leaseID, e ≠ .reach taskID leaseID := by
    intro e he
    rcases List.mem_append.mp he with he | he
    · rcases mem_ackEvents he with rfl | rfl | ⟨_, rfl⟩ <;>
        exact ⟨fun _ _ => ⟨nofun, nofun⟩, fun _ _ => nofun⟩
    · rcases mem_closeEvents he with ⟨id, he⟩ | rfl
      · obtain ⟨_, rfl | rfl⟩ := mem_stopTask he <;>
          exact ⟨fun _ _ => ⟨nofun, nofun⟩, fun _ _ => nofun⟩
      · exact ⟨fun _ _ => ⟨nofun, nofun⟩, fun _ _ => nofun⟩
  exact ⟨fun e he => (hcases e he).1, fun taskID leaseID he => (hcases _ he).2 _ _ rfl⟩

omit [BodyCodec Body] in
theorem plain_head {l : List BatchEvent} (h : ∀ e ∈ l, Plain e) : ∀ e ∈ l.head?, Plain e :=
  fun e he => h e (List.mem_of_mem_head? he)

/-- The events of the claims begin with the arrival at the first of them. -/
theorem plain_head_claims (env : BatchEnv Body) (rts : String → Option String)
    (l : List (TaskClaim Body)) : ∀ e ∈ (l.flatMap (claimEvents env rts)).head?, Plain e := by
  cases l with
  | nil => exact nofun
  | cons claim l =>
    intro e he
    obtain rfl := Option.some.inj he
    exact fun _ _ => ⟨nofun, nofun⟩

/-- The whole iteration is led. -/
theorem workerIteration_isChain (env : BatchEnv Body) (claims : List (TaskClaim Body)) :
    (workerIteration env claims).IsChain Leads := by
  by_cases hne : claims = []
  · subst hne
    exact .nil
  have hloop : ∀ l : List (TaskClaim Body),
      (l.flatMap (claimEvents env (runtimes claims))).IsChain Leads := by
    intro l
    induction l with
    | nil => exact .nil
    | cons claim l ih =>
      rw [List.flatMap_cons]
      exact isChain_append_plain (claimEvents_isChain env _ claim) ih (plain_head_claims env _ l)
  have hend := (plain_end env claims ((claims.filter (succeededTask env)).map (·.taskID))
    ((claims.filter (succeededTask env)).map (·.leaseID))).1
  rw [workerIteration_eq hne, List.append_assoc]
  refine isChain_append_plain ?_ (isChain_of_plain hend) (plain_head hend)
  exact isChain_append_plain (isChain_of_plain plain_start.1) (hloop claims)
    (plain_head_claims env _ claims)

/-! ## The place of the loop -/

theorem noReach_runClaim (env : BatchEnv Body) (rts : String → Option String)
    (claim : TaskClaim Body) : NoReach (runClaim env rts claim).1 := by
  intro taskID leaseID he
  have hstop : ∀ id, .reach taskID leaseID ∉ stopTask rts id := by
    intro id hin
    obtain ⟨_, h | h⟩ := mem_stopTask hin <;> cases h
  cases hruns : runs env claim with
  | false =>
    rw [runClaim_of_not_runs hruns] at he
    dsimp only at he
    split at he
    · cases he
    · exact hstop _ he
  | true =>
    obtain ⟨body, task, -, -, heq⟩ := runClaim_of_runs hruns rts
    rw [heq] at he
    rcases List.mem_append.mp he with he | he
    · simp at he
    · split at he
      · cases he
      · rcases mem_failTask he with h | h | ⟨_, h⟩ | h
        · cases h
        · cases h
        · cases h
        · exact hstop _ h

/-- Wherever the loop comes to a claim, the events of the claim follow, and a plain event
follows these. -/
def Aligned (env : BatchEnv Body) (claims : List (TaskClaim Body)) (events : List BatchEvent) :
    Prop :=
  ∀ taskID leaseID before after, events = before ++ .reach taskID leaseID :: after →
    ∃ claim ∈ claims, ∃ rest, (∀ e ∈ rest.head?, Plain e) ∧
      .reach taskID leaseID :: after = claimEvents env (runtimes claims) claim ++ rest

/-- What the loop has still to do stays aligned. -/
theorem Aligned.tail {env : BatchEnv Body} {claims : List (TaskClaim Body)} {e : BatchEvent}
    {events : List BatchEvent} (h : Aligned env claims (e :: events)) :
    Aligned env claims events := by
  rintro taskID leaseID before after rfl
  exact h taskID leaseID (e :: before) after rfl

/-- Events without an arrival in front. -/
theorem Aligned.of_append {env : BatchEnv Body} {claims : List (TaskClaim Body)}
    {events : List BatchEvent} (h : Aligned env claims events) {first : List BatchEvent}
    (hfirst : NoReach first) : Aligned env claims (first ++ events) := by
  intro taskID leaseID before after heq
  rcases List.append_eq_append_iff.mp heq with ⟨mid, rfl, hmid⟩ | ⟨mid, rfl, hmid⟩
  · exact h taskID leaseID mid after hmid
  · cases mid with
    | nil => exact h taskID leaseID [] after hmid.symm
    | cons x mid =>
      obtain rfl := (List.cons.inj hmid).1
      exact absurd (List.mem_append_right _ List.mem_cons_self) (hfirst taskID leaseID)

/-- The claims that are left, and the end of the iteration. -/
theorem aligned_claims {env : BatchEnv Body} {claims : List (TaskClaim Body)}
    {last : List BatchEvent} (hlast : ∀ e ∈ last, Plain e) (hno : NoReach last) :
    ∀ l : List (TaskClaim Body), l ⊆ claims →
      Aligned env claims (l.flatMap (claimEvents env (runtimes claims)) ++ last) := by
  intro l
  induction l with
  | nil =>
    rintro - taskID leaseID before after heq
    rw [List.flatMap_nil, List.nil_append] at heq
    rw [heq] at hno
    exact absurd (List.mem_append_right _ List.mem_cons_self) (hno taskID leaseID)
  | cons claim l ih =>
    intro hsub
    obtain ⟨hmem, hrest⟩ := List.cons_subset.mp hsub
    have hplain : ∀ e ∈ (l.flatMap (claimEvents env (runtimes claims)) ++ last).head?,
        Plain e := by
      cases l with
      | nil => exact plain_head hlast
      | cons next l =>
        intro e he
        obtain rfl := Option.some.inj he
        exact fun _ _ => ⟨nofun, nofun⟩
    rw [List.flatMap_cons, List.append_assoc]
    intro taskID leaseID before after heq
    cases before with
    | nil => exact ⟨claim, hmem, _, hplain, heq.symm⟩
    | cons x before =>
      exact ((ih hrest).of_append (noReach_runClaim env _ claim)) taskID leaseID before after
        (List.cons.inj heq).2

/-- The whole iteration is aligned. -/
theorem workerIteration_aligned (env : BatchEnv Body) (claims : List (TaskClaim Body)) :
    Aligned env claims (workerIteration env claims) := by
  by_cases hne : claims = []
  · rw [workerIteration, if_pos hne]
    intro taskID leaseID before after heq
    exact absurd heq.symm (List.append_ne_nil_of_right_ne_nil _ (List.cons_ne_nil _ _))
  · obtain ⟨hplain, hno⟩ := plain_end env claims
      ((claims.filter (succeededTask env)).map (·.taskID))
      ((claims.filter (succeededTask env)).map (·.leaseID))
    rw [workerIteration_eq hne, List.append_assoc, List.append_assoc]
    exact (aligned_claims hplain hno claims (List.Subset.refl _)).of_append plain_start.2

/-- Where `Processing` follows the arrival, the loop is at a claim that it runs. -/
theorem Aligned.atClaim {env : BatchEnv Body} {claims : List (TaskClaim Body)} {s : Batch}
    (h : Aligned env claims s.rest) {taskID leaseID : String} {after : List BatchEvent}
    (hrest : s.rest = .reach taskID leaseID :: .processing taskID leaseID :: after) :
    ∃ claim, AtClaim env claims s claim ∧ runs env claim = true ∧ claim.taskID = taskID ∧
      claim.leaseID = leaseID := by
  obtain ⟨claim, hmem, rest, hplain, heq⟩ := h taskID leaseID [] _ hrest
  have hhead := (List.cons.inj heq).1
  have htail : _ = (runClaim env (runtimes claims) claim).1 ++ rest := (List.cons.inj heq).2
  injection hhead with htask hlease
  refine ⟨claim, ⟨hmem, rest, hrest.trans heq⟩, ?_, htask.symm, hlease.symm⟩
  rw [← claimEvents_processing_iff env (runtimes claims) claim, claimEvents]
  cases hrun : (runClaim env (runtimes claims) claim).1 with
  | nil =>
    rw [hrun, List.nil_append] at htail
    rw [← htail] at hplain
    exact absurd rfl (hplain _ rfl taskID leaseID).1
  | cons x events =>
    rw [hrun, List.cons_append, List.cons.injEq] at htail
    rw [← htail.1, htask, hlease]
    exact ⟨events, rfl⟩

/-! ## Runs -/

omit [BodyCodec Body] in
/-- A step is the next one of the loop, or one of a heartbeat; the latter adds a plain event
that reaches nothing, or none. -/
theorem Batch.step_cases {s s' : Batch} {act : BatchAct} (h : s.step act = some s') :
    (act = .loop ∧ ∃ e, s.rest = e :: s'.rest ∧ s'.log = s.log ++ [e]) ∨
      (act ≠ .loop ∧ s'.rest = s.rest ∧ (s'.log = s.log ∨
        ∃ e, Plain e ∧ (∀ taskID leaseID, e ≠ .reach taskID leaseID) ∧
          s'.log = s.log ++ [e])) := by
  cases act with
  | loop =>
    left
    simp only [Batch.step] at h
    cases hrest : s.rest with
    | nil => rw [hrest] at h; cases h
    | cons e rest =>
      rw [hrest] at h
      obtain rfl := Option.some.inj h
      refine ⟨rfl, e, ?_, ?_⟩ <;> cases e <;> rfl
  | tick taskID leaseID reply =>
    refine .inr ⟨nofun, ?_⟩
    simp only [Batch.step] at h
    split at h
    · obtain rfl := Option.some.inj h
      refine ⟨by split <;> rfl, .inr ⟨.beat taskID leaseID reply, fun _ _ => ⟨nofun, nofun⟩,
        fun _ _ => nofun, by split <;> rfl⟩⟩
    · cases h
  | check taskID leaseID =>
    refine .inr ⟨nofun, ?_⟩
    simp only [Batch.step] at h
    split at h
    · obtain rfl := Option.some.inj h
      exact ⟨rfl, .inl rfl⟩
    · cases h
  | cancelTask taskID leaseID =>
    refine .inr ⟨nofun, ?_⟩
    simp only [Batch.step] at h
    split at h
    · obtain rfl := Option.some.inj h
      exact ⟨rfl, .inr ⟨.cancelTask taskID leaseID, fun _ _ => ⟨nofun, nofun⟩,
        fun _ _ => nofun, rfl⟩⟩
    · cases h
  | done taskID leaseID =>
    refine .inr ⟨nofun, ?_⟩
    simp only [Batch.step] at h
    split at h
    · obtain rfl := Option.some.inj h
      exact ⟨rfl, .inl rfl⟩
    · cases h
  | shutdown =>
    refine .inr ⟨nofun, ?_⟩
    obtain rfl := Option.some.inj h
    exact ⟨rfl, .inr ⟨.shutdown, fun _ _ => ⟨nofun, nofun⟩, fun _ _ => nofun, rfl⟩⟩

/-- The invariant: nothing was started on a lost lease, and a claim that is about to be
started was not lost when the loop came to it. -/
structure StartsHeld (env : BatchEnv Body) (claims : List (TaskClaim Body)) (s : Batch) :
    Prop where
  led : s.rest.IsChain Leads
  aligned : Aligned env claims s.rest
  clean : NoLostStart s.log
  next : ∀ taskID leaseID, (s.rest.head? = some (.processing taskID leaseID) ∨
    s.rest.head? = some (.handle taskID leaseID)) → ReachedHeld s.log taskID leaseID

theorem StartsHeld.step {env : BatchEnv Body} {claims : List (TaskClaim Body)} {s s' : Batch}
    {act : BatchAct} (hok : TakesUpHeld env claims s act) (hstep : s.step act = some s')
    (h : StartsHeld env claims s) : StartsHeld env claims s' := by
  rcases Batch.step_cases hstep with ⟨rfl, e, hrest, hlog⟩ | ⟨-, hrest, hlog⟩
  · have hled := h.led
    rw [hrest] at hled
    refine ⟨hled.of_cons, (hrest ▸ h.aligned).tail, ?_, ?_⟩
    · -- the event itself
      rw [hlog]
      refine noLostStart_snoc h.clean fun taskID leaseID he => ?_
      refine (h.next taskID leaseID ?_).not_reachedLost
      rw [hrest]
      exact he.imp (congrArg some ·) (congrArg some ·)
    · -- the event after it
      obtain ⟨rest, hs'⟩ : ∃ rest, s'.rest = rest := ⟨_, rfl⟩
      rw [hs'] at hrest hled ⊢
      rintro taskID leaseID (hnext | hnext)
      · obtain ⟨rest, rfl⟩ := List.head?_eq_some_iff.mp hnext
        -- it follows the arrival at the claim, where the guard speaks
        obtain rfl := ((List.isChain_cons_cons.mp hled).1 taskID leaseID).1 rfl
        obtain ⟨claim, hat, hruns, rfl, rfl⟩ := h.aligned.atClaim hrest
        rw [hlog]
        exact ⟨s.log, [], rfl, List.not_mem_nil, hok claim rfl hat hruns⟩
      · obtain ⟨rest, rfl⟩ := List.head?_eq_some_iff.mp hnext
        obtain rfl := ((List.isChain_cons_cons.mp hled).1 taskID leaseID).2 rfl
        rw [hlog]
        refine (h.next taskID leaseID (.inl ?_)).snoc nofun
        rw [hrest]
        rfl
  · rcases hlog with hlog | ⟨e, hplain, hreach, hlog⟩
    · exact ⟨hrest ▸ h.led, hrest ▸ h.aligned, hlog ▸ h.clean, hrest ▸ hlog ▸ h.next⟩
    · refine ⟨hrest ▸ h.led, hrest ▸ h.aligned, ?_, fun taskID leaseID hnext => ?_⟩
      · rw [hlog]
        refine noLostStart_snoc h.clean fun taskID leaseID he => ?_
        exact he.elim (absurd · (hplain taskID leaseID).1) (absurd · (hplain taskID leaseID).2)
      · rw [hrest] at hnext
        rw [hlog]
        exact (h.next taskID leaseID hnext).snoc (hreach taskID leaseID)

omit [BodyCodec Body] in
/-- A run only adds to the history, and what the loop had to do is done or still to do. -/
theorem run_performs {ok : Batch → BatchAct → Prop} {s s' : Batch} {acts : List BatchAct}
    (h : BatchRun ok s acts s') :
    ∃ added, s'.log = s.log ++ added ∧ ∀ e ∈ s.rest, e ∈ added ∨ e ∈ s'.rest := by
  induction h with
  | nil => exact ⟨[], (List.append_nil _).symm, fun e he => .inr he⟩
  | cons _ hstep _ ih =>
    obtain ⟨added, hlog', hrest'⟩ := ih
    rcases Batch.step_cases hstep with ⟨-, e, hrest, hlog⟩ | ⟨-, hrest, hlog⟩
    · refine ⟨e :: added, by rw [hlog', hlog]; simp, fun x hx => ?_⟩
      rw [hrest] at hx
      rcases List.mem_cons.mp hx with rfl | hx
      · exact .inl List.mem_cons_self
      · exact (hrest' x hx).imp (List.mem_cons_of_mem _) (fun h => h)
    · rw [hrest] at hrest'
      rcases hlog with hlog | ⟨e, -, -, hlog⟩
      · exact ⟨added, by rw [hlog', hlog], hrest'⟩
      · refine ⟨e :: added, by rw [hlog', hlog]; simp, fun x hx => ?_⟩
        exact (hrest' x hx).imp (List.mem_cons_of_mem _) (fun h => h)

/-- A finished batch in which nothing was started on a lost lease never took up a lost claim
to run it. -/
theorem takesUpHeld_of_noLostStart {env : BatchEnv Body} {claims : List (TaskClaim Body)}
    {s s' : Batch} {acts : List BatchAct} (h : BatchRun (fun _ _ => True) s acts s')
    (hrest : s'.rest = []) (hclean : NoLostStart s'.log) :
    BatchRun (TakesUpHeld env claims) s acts s' := by
  induction h with
  | nil => exact .nil
  | cons _ hstep hrun ih =>
    refine .cons ?_ hstep (ih hrest hclean)
    rintro claim rfl ⟨-, rest, hat⟩ hruns hlost
    -- the first events of a claim that is run are the arrival and `Processing`
    obtain ⟨more, hevents⟩ := (claimEvents_processing_iff env (runtimes claims) claim).mpr hruns
    have hnext := hat
    rw [hevents, List.cons_append, List.cons_append] at hnext
    rcases Batch.step_cases hstep with ⟨-, e, he, hlog⟩ | ⟨hne, -⟩
    · obtain ⟨added, hlog', hdone⟩ := run_performs hrun
      rw [hnext, List.cons.injEq] at he
      have hin : .processing claim.taskID claim.leaseID ∈ added := by
        refine (hdone _ (he.2 ▸ List.mem_cons_self)).elim (fun h => h) fun h => ?_
        rw [hrest] at h
        cases h
      rw [hlog', hlog, ← he.1, List.append_assoc] at hclean
      exact (hclean claim.taskID claim.leaseID _ _ rfl hlost).1 hin
    · exact hne rfl

/-- **Lost leases.** For every batch, every answer the loop gets and every interleaving with
the heartbeats: if no claim that the loop takes up to run it is lost at that moment, nothing
is started on a lost lease; and in a finished batch nothing is started on a lost lease only
if that was so. -/
theorem handlers_start_held_iff {env : BatchEnv Body} {claims : List (TaskClaim Body)}
    {acts : List BatchAct} {s : Batch}
    (h : BatchRun (fun _ _ => True) (.start env claims) acts s) :
    (BatchRun (TakesUpHeld env claims) (.start env claims) acts s → NoLostStart s.log) ∧
      (s.rest = [] → NoLostStart s.log →
        BatchRun (TakesUpHeld env claims) (.start env claims) acts s) := by
  refine ⟨fun hheld => ?_, fun hrest hclean => takesUpHeld_of_noLostStart h hrest hclean⟩
  have hstart : StartsHeld env claims (.start env claims) := by
    refine ⟨workerIteration_isChain env claims, workerIteration_aligned env claims,
      noLostStart_nil, fun taskID leaseID hnext => ?_⟩
    have hhead : (workerIteration env claims).head? = none ∨
        (workerIteration env claims).head? = some (.markLeases (claimedIDs claims)) := by
      unfold workerIteration
      split
      · exact .inl rfl
      · exact .inr rfl
    rcases hhead with hhead | hhead <;> rcases hnext with hnext | hnext <;>
      exact absurd (hhead.symm.trans hnext) nofun
  exact (hheld.invariant (StartsHeld env claims) (fun _ _ _ hok hstep hs => hs.step hok hstep) hstart).clean

end

/-! ## Two runs -/

/-- Two e-mails of one batch. -/
def twoEmails : List (TaskClaim JsonBody) := [emailClaim "slow" "L1", emailClaim "late" "L2"]

/-- No heartbeat is rejected: the batch is finished, and every claim was held when the loop
took it up. -/
theorem handlers_start_held_iff_renewed :
    ∃ s, s.rest = [] ∧
      BatchRun (TakesUpHeld sampleEnv twoEmails) (.start sampleEnv twoEmails)
        (.replicate 6 .loop ++ [.tick "late" "L2" .renewed] ++ .replicate 13 .loop) s := by
  have hend : (runList Batch.step (.start sampleEnv twoEmails)
      (.replicate 6 .loop ++ [.tick "late" "L2" .renewed] ++ .replicate 13 .loop)).any
      (fun s => s.rest.isEmpty && s.log.all fun e => match e with
        | .beat _ _ .leaseLost => false
        | _ => true) = true := by
    decide +kernel
  obtain ⟨s, hrun, hs⟩ := Run.exists_of_any (fun _ _ _ => trivial) hend
  rw [Bool.and_eq_true, List.isEmpty_iff, List.all_eq_true] at hs
  refine ⟨s, hs.1, (handlers_start_held_iff hrun).2 hs.1 ?_⟩
  intro taskID leaseID before after hsplit hlost
  have hbeat := hs.2 _ (hsplit ▸ List.mem_append_left _ hlost.1)
  cases hbeat

/-- The batch up to the moment when the loop comes to the second task, which was lost while
the first handler ran. -/
def lostWhileWaiting : List BatchEvent :=
  [.markLeases ["slow", "late"], .startBeat "slow" "L1", .startBeat "late" "L2",
    .reach "slow" "L1", .processing "slow" "L1", .handle "slow" "L1",
    .beat "late" "L2" .leaseLost, .cancelTask "late" "L2", .handled "slow" "L1" true]

/-- What the loop does then. -/
def startedLate : List BatchEvent :=
  .reach "late" "L2" :: [.processing "late" "L2", .handle "late" "L2"]

/-- **A handler on a lost lease.** While the first handler runs, the heartbeat of the second
task is rejected and its context cancelled; then its turn comes, `Processing` is written and
its handler is called. -/
theorem lost_task_is_started :
    ∃ acts s, BatchRun (fun _ _ => True) (.start sampleEnv twoEmails) acts s ∧
      ¬ NoLostStart s.log := by
  have hend : (runList Batch.step (.start sampleEnv twoEmails)
      (.replicate 6 .loop ++ [.tick "late" "L2" .leaseLost, .check "late" "L2",
        .cancelTask "late" "L2"] ++ .replicate 4 .loop)).any
      (fun s => s.log == lostWhileWaiting ++ startedLate) = true := by
    decide +kernel
  obtain ⟨s, hrun, hs⟩ := Run.exists_of_any (fun _ _ _ => trivial) hend
  refine ⟨_, s, hrun, fun h => ?_⟩
  have hlost : Lost lostWhileWaiting "late" "L2" := ⟨by decide, .inl (by decide)⟩
  have hstart := h "late" "L2" _ _ (beq_iff_eq.mp hs) hlost
  exact hstart.1 List.mem_cons_self

end ForgeQueue
