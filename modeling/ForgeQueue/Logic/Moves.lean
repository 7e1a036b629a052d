import ForgeQueue.Model.World

/-!
# What one step of the world can do

`Moves w act w'` lists, act by act, the condition under which a process can take the
step and the world it leaves. `World.moves` is the inversion of `World.step`; every
invariant of the world is proved by cases on it. For invariants of the server alone,
`World.engine_step` says which command a step sends.
-/

namespace ForgeQueue

open Base

section Fields

variable {Body : Type}

theorem World.setAgent_self (w : World Body) (i : ℕ) (pc : AgentPc Body) :
    (w.setAgent i pc).agents i = pc :=
  Function.update_self _ _ _

/-- A property of every goroutine's program counter survives the move of one. -/
theorem setAgent_forall {w : World Body} {i : ℕ} {pc : AgentPc Body} {P : AgentPc Body → Prop}
    (h : ∀ j, P (w.agents j)) (hpc : P pc) : ∀ j, P ((w.setAgent i pc).agents j) := by
  intro j
  show P (Function.update w.agents i pc j)
  by_cases hj : j = i
  · rw [hj, Function.update_self]; exact hpc
  · rw [Function.update_of_ne hj]; exact h j

/-- A property of every reconciler's program counter survives the move of one. -/
theorem setReconciler_forall {w : World Body} {k : ℕ} {pc : ReconcilerPc Body}
    {P : ReconcilerPc Body → Prop} (h : ∀ j, P (w.reconcilers j)) (hpc : P pc) :
    ∀ j, P ((w.setReconciler k pc).reconcilers j) := by
  intro j
  show P (Function.update w.reconcilers k pc j)
  by_cases hj : j = k
  · rw [hj, Function.update_self]; exact hpc
  · rw [Function.update_of_ne hj]; exact h j

end Fields

variable {Body : Type} [BodyCodec Body]

/-- The steps of the world. -/
inductive Moves (w : World Body) : Act → World Body → Prop
  | routeStart {a clock pgNow} : w.calls a.id = none →
      Moves w (.routeStart a clock pgNow) { w with
        journal := journalEnqueue pgNow (routeRow clock a) w.journal
        calls := put w.calls a.id ⟨a, clock, .journaled⟩ }
  | routeSet {id c} : w.calls id = some c → c.pc = .journaled →
      Moves w (.routeSet id) ((w.exec 0 (.routeBody c.args)).setCall c .bodySet)
  | routePush {id c} : w.calls id = some c → c.pc = .bodySet →
      Moves w (.routePush id) ((w.exec 0 (.routePush c.args c.clock)).setCall c .pushed)
  | routeDone {id c} : w.calls id = some c → c.pc = .pushed →
      Moves w (.routeDone id)
        ({ w with journal := journalMaterialized c.args.id w.journal }.setCall c .returned)
  | routeCrash {id c} : w.calls id = some c → c.pc ≠ .returned →
      Moves w (.routeCrash id) (w.setCall c .crashed)
  | claim {i leaseIDs expiry} : w.agents i = .idle →
      Moves w (.claim i leaseIDs expiry)
        ((w.exec 0 (.claimBatch leaseIDs expiry)).setAgent i
          (if (claimBatch leaseIDs expiry w.engine.redis).2 = [] then .idle
            else .batch (claimBatch leaseIDs expiry w.engine.redis).2 []))
  | skip {i claim todo acks} : w.agents i = .batch (claim :: todo) acks →
      Moves w (.skip i) (w.setAgent i (.batch todo acks))
  | process {i claim todo acks body task} : w.agents i = .batch (claim :: todo) acks →
      claim.body = some body → unmarshal body = some task →
      Moves w (.process i)
        ({ w with journal := journalProcessing claim.taskID w.journal }.setAgent i
          (.handling claim task todo acks))
  | handlerOk {i claim task todo acks} : w.agents i = .handling claim task todo acks →
      Moves w (.handlerOk i)
        (w.setAgent i (.batch todo (acks ++ [(claim.taskID, claim.leaseID)])))
  | handlerFail {i claim task todo acks now base cap} :
      w.agents i = .handling claim task todo acks →
      Moves w (.handlerFail i now base cap)
        ((w.exec now (.requeueOrDead task.id claim.leaseID base cap)).setAgent i
          (afterRequeue task.id
            (requeueOrDead now base cap task.id claim.leaseID w.engine.redis).2 todo acks))
  | recover {i taskID now base cap} : w.agents i = .idle →
      Moves w (.recover i taskID now base cap)
        ((w.exec now (.requeueOrDead taskID "" base cap)).setAgent i
          (afterRequeue taskID (requeueOrDead now base cap taskID "" w.engine.redis).2 [] []))
  | noReport {i taskID dead todo acks} : w.agents i = .reporting taskID dead todo acks →
      (w.engine.redis.task taskID).bind unmarshal = none →
      Moves w (.readReport i) (w.setAgent i (.batch todo acks))
  | readReport {i taskID dead todo acks t} : w.agents i = .reporting taskID dead todo acks →
      (w.engine.redis.task taskID).bind unmarshal = some t →
      Moves w (.readReport i) (w.setAgent i (.journaling taskID dead t.attempts todo acks))
  | writeReport {i taskID dead attempts todo acks due} :
      w.agents i = .journaling taskID dead attempts todo acks →
      Moves w (.writeReport i due)
        ({ w with journal :=
            if dead then journalDead taskID attempts w.journal
            else journalRetrying taskID attempts due w.journal }.setAgent i (.batch todo acks))
  | noAck {i} : w.agents i = .batch [] [] → Moves w (.ack i) (w.setAgent i .idle)
  | ack {i acks} : w.agents i = .batch [] acks →
      Moves w (.ack i) ((w.exec 0 (.ackBatch acks)).setAgent i
        (.succeeding (ackBatch acks w.engine.redis).2))
  | allSucceeded {i} : w.agents i = .succeeding [] → Moves w (.succeeded i) (w.setAgent i .idle)
  | succeeded {i id ids} : w.agents i = .succeeding (id :: ids) →
      Moves w (.succeeded i)
        ({ w with journal := journalSucceeded id w.journal }.setAgent i (.succeeding ids))
  | agentCrash {i} : Moves w (.agentCrash i) (w.setAgent i .idle)
  | heartbeat {taskID leaseID now d} :
      Moves w (.heartbeat taskID leaseID now d) (w.exec now (.heartbeat taskID leaseID d))
  | promote {taskID now} : Moves w (.promote taskID now) (w.exec now (.promoteTask taskID))
  | readPage {k cursor} : w.reconcilers k = .idle cursor →
      Moves w (.readPage k) (w.setReconciler k (.sweeping cursor
        (active cursor reconcilePageSize w.journal)
        (decide ((active cursor reconcilePageSize w.journal).length = reconcilePageSize))))
  | materializeRow {k next row rest full clock} :
      w.reconcilers k = .sweeping next (row :: rest) full →
      Moves w (.materializeRow k clock)
        ((w.exec 0 (.materialize row.id (materializeScore clock row) row.payload)).setReconciler k
          (.clearing row rest full))
  | clearRow {k row rest full} : w.reconcilers k = .clearing row rest full →
      Moves w (.clearRow k)
        ({ w with journal := journalMaterialized row.id w.journal }.setReconciler k
          (.sweeping row.key rest full))
  | finishPage {k next full} : w.reconcilers k = .sweeping next [] full →
      Moves w (.finishPage k) (w.setReconciler k (.idle (if full then next else zeroCursor)))
  | reconcilerCrash {k} :
      Moves w (.reconcilerCrash k) (w.setReconciler k (.idle zeroCursor))
  | wipe : Moves w .wipe (w.exec 0 .wipe)

/-- **Inversion.** -/
theorem World.moves {w w' : World Body} {act : Act} (h : w.step act = some w') :
    Moves w act w' := by
  cases act with
  | routeStart a clock pgNow =>
    simp only [World.step, World.routeStep] at h
    split at h
    · cases h
    · cases h
      exact .routeStart (Option.not_isSome_iff_eq_none.mp ‹_›)
  | routeSet id =>
    simp only [World.step, World.routeStep] at h
    split at h
    · split at h
      · cases h; exact .routeSet ‹_› ‹_›
      · cases h
    · cases h
  | routePush id =>
    simp only [World.step, World.routeStep] at h
    split at h
    · split at h
      · cases h; exact .routePush ‹_› ‹_›
      · cases h
    · cases h
  | routeDone id =>
    simp only [World.step, World.routeStep] at h
    split at h
    · split at h
      · cases h; exact .routeDone ‹_› ‹_›
      · cases h
    · cases h
  | routeCrash id =>
    simp only [World.step, World.routeStep] at h
    split at h
    · split at h
      · cases h
      · cases h; exact .routeCrash ‹_› ‹_›
    · cases h
  | claim i leaseIDs expiry =>
    simp only [World.step, World.agentStep] at h
    split at h
    · cases h; exact .claim ‹_›
    · cases h
  | skip i =>
    simp only [World.step, World.agentStep] at h
    split at h
    · cases h; exact .skip ‹_›
    · cases h
  | process i =>
    simp only [World.step, World.agentStep] at h
    split at h
    · split at h
      · cases h
      · split at h
        · cases h
        · split at h
          · cases h
          · cases h; exact .process ‹_› ‹_› ‹_›
    · cases h
  | handlerOk i =>
    simp only [World.step, World.agentStep] at h
    split at h
    · cases h; exact .handlerOk ‹_›
    · cases h
  | handlerFail i now base cap =>
    simp only [World.step, World.agentStep] at h
    split at h
    · cases h; exact .handlerFail ‹_›
    · cases h
  | recover i taskID now base cap =>
    simp only [World.step, World.agentStep] at h
    split at h
    · cases h; exact .recover ‹_›
    · cases h
  | readReport i =>
    simp only [World.step, World.agentStep] at h
    split at h
    · split at h
      · cases h; exact .noReport ‹_› ‹_›
      · cases h; exact .readReport ‹_› ‹_›
    · cases h
  | writeReport i due =>
    simp only [World.step, World.agentStep] at h
    split at h
    · cases h; exact .writeReport ‹_›
    · cases h
  | ack i =>
    simp only [World.step, World.agentStep] at h
    split at h
    · cases h; exact .noAck ‹_›
    · cases h; exact .ack ‹_›
    · cases h
  | succeeded i =>
    simp only [World.step, World.agentStep] at h
    split at h
    · cases h; exact .allSucceeded ‹_›
    · cases h; exact .succeeded ‹_›
    · cases h
  | agentCrash i => cases h; exact .agentCrash
  | heartbeat taskID leaseID now d => cases h; exact .heartbeat
  | promote taskID now => cases h; exact .promote
  | readPage k =>
    simp only [World.step, World.reconcilerStep] at h
    split at h
    · cases h; exact .readPage ‹_›
    · cases h
  | materializeRow k clock =>
    simp only [World.step, World.reconcilerStep] at h
    split at h
    · cases h; exact .materializeRow ‹_›
    · cases h
  | clearRow k =>
    simp only [World.step, World.reconcilerStep] at h
    split at h
    · cases h; exact .clearRow ‹_›
    · cases h
  | finishPage k =>
    simp only [World.step, World.reconcilerStep] at h
    split at h
    · cases h; exact .finishPage ‹_›
    · cases h
  | reconcilerCrash k => cases h; exact .reconcilerCrash
  | wipe => cases h; exact .wipe

/-- The goroutine that takes the step. -/
def Act.agent : Act → Option ℕ
  | .claim i _ _ | .skip i | .process i | .handlerOk i | .handlerFail i _ _ _
  | .recover i _ _ _ _ | .readReport i | .writeReport i _ | .ack i | .succeeded i
  | .agentCrash i => some i
  | _ => none

/-- **Frame.** A step moves nobody else. -/
theorem World.agents_step {w w' : World Body} {act : Act} (h : w.step act = some w') {j : ℕ}
    (hj : act.agent ≠ some j) : w'.agents j = w.agents j := by
  have other : ∀ {i : ℕ} {pc : AgentPc Body}, some i ≠ some j →
      Function.update w.agents i pc j = w.agents j :=
    fun hne => Function.update_of_ne (fun heq => hne (congrArg some heq.symm)) _ _
  cases World.moves h with
  | claim _ => exact other hj
  | skip _ => exact other hj
  | process _ _ _ => exact other hj
  | handlerOk _ => exact other hj
  | handlerFail _ => exact other hj
  | recover _ => exact other hj
  | noReport _ _ => exact other hj
  | readReport _ _ => exact other hj
  | writeReport _ => exact other hj
  | noAck _ => exact other hj
  | ack _ => exact other hj
  | allSucceeded _ => exact other hj
  | succeeded _ => exact other hj
  | agentCrash => exact other hj
  | _ => rfl

/-- The same for a run. -/
theorem World.agents_run {ok : World Body → Act → Prop} {w w' : World Body} {acts : List Act}
    (hrun : WorldRun ok w acts w') {j : ℕ} (hj : ∀ act ∈ acts, act.agent ≠ some j) :
    w'.agents j = w.agents j := by
  induction hrun with
  | nil => rfl
  | cons _ hst _ ih =>
    rw [ih fun act hact => hj act (List.mem_cons_of_mem _ hact)]
    exact World.agents_step hst (hj _ List.mem_cons_self)

/-- The command an act sends to Redis. -/
def Issues (w : World Body) : Act → Op Body → Prop
  | .routeSet id, op => ∃ c, w.calls id = some c ∧ c.pc = .journaled ∧ op = .routeBody c.args
  | .routePush id, op =>
    ∃ c, w.calls id = some c ∧ c.pc = .bodySet ∧ op = .routePush c.args c.clock
  | .claim _ leaseIDs expiry, op => op = .claimBatch leaseIDs expiry
  | .handlerFail _ _ base cap, op => ∃ t l, op = .requeueOrDead t l base cap
  | .recover _ taskID _ base cap, op => op = .requeueOrDead taskID "" base cap
  | .ack _, op => ∃ acks, op = .ackBatch acks
  | .heartbeat taskID leaseID _ d, op => op = .heartbeat taskID leaseID d
  | .promote taskID _, op => op = .promoteTask taskID
  | .materializeRow k clock, op =>
    ∃ next row rest full, w.reconcilers k = .sweeping next (row :: rest) full ∧
      op = .materialize row.id (materializeScore clock row) row.payload
  | .wipe, op => op = .wipe
  | _, _ => False

/-- A step leaves the server alone or sends it one command. -/
theorem World.engine_step {w w' : World Body} {act : Act} (h : w.step act = some w') :
    w'.engine = w.engine ∨
      ∃ now op, Issues w act op ∧ w'.engine = w.engine.exec ⟨now, op⟩ := by
  cases World.moves h with
  | routeSet hc hpc => exact .inr ⟨_, _, ⟨_, hc, hpc, rfl⟩, rfl⟩
  | routePush hc hpc => exact .inr ⟨_, _, ⟨_, hc, hpc, rfl⟩, rfl⟩
  | claim _ => exact .inr ⟨_, _, rfl, rfl⟩
  | handlerFail _ => exact .inr ⟨_, _, ⟨_, _, rfl⟩, rfl⟩
  | recover _ => exact .inr ⟨_, _, rfl, rfl⟩
  | ack _ => exact .inr ⟨_, _, ⟨_, rfl⟩, rfl⟩
  | heartbeat => exact .inr ⟨_, _, rfl, rfl⟩
  | promote => exact .inr ⟨_, _, rfl, rfl⟩
  | materializeRow hk => exact .inr ⟨_, _, ⟨_, _, _, _, hk, rfl⟩, rfl⟩
  | wipe => exact .inr ⟨_, _, rfl, rfl⟩
  | _ => exact .inl rfl

omit [BodyCodec Body] in
/-- Materializations are the reconcilers'. -/
theorem Issues.materialize {w : World Body} {act : Act} {id : String} {score : Option ℚ}
    {payload : Body} (h : Issues w act (.materialize id score payload)) :
    ∃ k clock next row rest full, act = .materializeRow k clock ∧
      w.reconcilers k = .sweeping next (row :: rest) full ∧ row.id = id := by
  cases act with
  | materializeRow k clock =>
    obtain ⟨next, row, rest, full, hk, heq⟩ := h
    injection heq with hid
    exact ⟨k, clock, next, row, rest, full, rfl, hk, hid.symm⟩
  | routeSet id => obtain ⟨_, -, -, h⟩ := h; cases h
  | routePush id => obtain ⟨_, -, -, h⟩ := h; cases h
  | handlerFail i now base cap => obtain ⟨_, _, h⟩ := h; cases h
  | ack i => obtain ⟨_, h⟩ := h; cases h
  | _ => cases h

end ForgeQueue
