import ForgeQueue.Logic.Workers
import ForgeQueue.Model.JsonBody

/-!
# Terminal rows

The journal writes of the workers are unconditional and come after the script they
report, so a write can be late. A row that was set to `succeeded` or `dead` stays
terminal whatever happens next exactly if, at the moment of that write, no goroutine
still owes the journal a `Processing` or a `Retrying` of the task: the task itself is
over in Redis by then, and nobody will claim or retry it again.
-/

namespace ForgeQueue

open Base

section

variable {Body : Type} [BodyCodec Body]

/-- The handler of the claimed task will run, and `Processing` be written for `id`. -/
def TaskClaim.WillRun (id : String) (k : TaskClaim Body) : Prop :=
  k.taskID = id ∧ id ≠ "" ∧ (k.body.bind unmarshal).isSome

/-- The claims a goroutine has still to handle. -/
def AgentPc.todo : AgentPc Body → List (TaskClaim Body)
  | .batch todo _ | .handling _ _ todo _ | .reporting _ _ todo _ | .journaling _ _ _ todo _ => todo
  | _ => []

/-- Its `requeueOrDead` answered `scheduled` for `id`, and `reportRetry` will write
`Retrying`: the counter is read already, or the body it is read from, `body`, is there. -/
def AgentPc.OwesRetry (body : Option Body) (id : String) : AgentPc Body → Prop
  | .reporting t dead _ _ => t = id ∧ dead = false ∧ (body.bind unmarshal).isSome
  | .journaling t dead _ _ _ => t = id ∧ dead = false
  | _ => False

/-- The goroutine still owes the journal a `Processing` or a `Retrying` of `id`. -/
def AgentPc.Owes (body : Option Body) (id : String) (pc : AgentPc Body) : Prop :=
  (∃ k ∈ pc.todo, k.WillRun id) ∨ pc.OwesRetry body id

theorem not_owes_idle {body : Option Body} {id : String} :
    ¬ (AgentPc.idle : AgentPc Body).Owes body id := by
  rintro (⟨k, hk, -⟩ | hr)
  · cases hk
  · exact hr

theorem not_owes_succeeding {body : Option Body} {id : String} {ids : List String} :
    ¬ (AgentPc.succeeding ids : AgentPc Body).Owes body id := by
  rintro (⟨k, hk, -⟩ | hr)
  · cases hk
  · exact hr

/-- The step sets the row of `id` to `succeeded` or to `dead`. -/
def SetsTerminal (w : World Body) (id : String) : Act → Prop
  | .succeeded i => ∃ ids, w.agents i = .succeeding (id :: ids)
  | .writeReport i _ => ∃ attempts todo acks, w.agents i = .journaling id true attempts todo acks
  | _ => False

/-- The rows of the task are terminal. -/
def AllTerminal (id : String) (rows : List (Row Body)) : Prop :=
  ∀ row ∈ rows, row.id = id → row.state.terminal = true

/-! ## Rows -/

omit [BodyCodec Body] in
/-- An update of another row, or one that leaves terminal rows terminal. -/
theorem AllTerminal.update {id x : String} {f : Row Body → Row Body} {rows : List (Row Body)}
    (h : AllTerminal id rows) (hf : Keeps f)
    (hx : x = id → ∀ row, row.state.terminal = true → (f row).state.terminal = true) :
    AllTerminal id (journalUpdate x f rows) := by
  intro row hrow hid
  rcases mem_journalUpdate hrow with hold | ⟨old, hold, hx', rfl⟩
  · exact h row hold hid
  · rw [hf.id] at hid
    exact hx (hx'.symm.trans hid) old (h old hold hid)

omit [BodyCodec Body] in
/-- An update to a terminal state. -/
theorem AllTerminal.set {id : String} {f : Row Body → Row Body} (rows : List (Row Body))
    (hf : ∀ row, (f row).state.terminal = true) : AllTerminal id (journalUpdate id f rows) := by
  intro row hrow hid
  obtain ⟨old, -, rfl⟩ := List.mem_map.mp hrow
  by_cases hold : old.id = id
  · rw [if_pos hold]
    exact hf old
  · rw [if_neg hold] at hid
    exact absurd hid hold

/-- A task without an id is not processed. -/
theorem World.process_id {w w' : World Body} {i : ℕ} {claim : TaskClaim Body}
    {todo : List (TaskClaim Body)} {acks : List (String × String)}
    (hi : w.agents i = .batch (claim :: todo) acks) (hst : w.step (.process i) = some w') :
    claim.taskID ≠ "" := by
  intro hid
  simp [World.step, World.agentStep, hi, hid] at hst

end

section

variable {Body : Type} [TaskCodec Body]

/-- The task is over, nobody owes the journal anything, and its rows are terminal. -/
structure Settled (id : String) (w : World Body) : Prop where
  isOver : (jobOf w.engine.log id).Over
  nobody : ∀ j, ¬ (w.agents j).Owes (w.engine.redis.task id) id
  rows : AllTerminal id w.journal

omit [TaskCodec Body] in
/-- A goroutine that gets on with its batch owes nothing new. -/
theorem not_owes_of_todo [BodyCodec Body] {body : Option Body} {id : String}
    {pc pc' : AgentPc Body} (h : ¬ pc.Owes body id) (htodo : ∀ k ∈ pc'.todo, k ∈ pc.todo)
    (hretry : ¬ pc'.OwesRetry body id) : ¬ pc'.Owes body id := by
  rintro (⟨k, hk, hrun⟩ | hr)
  · exact h (.inl ⟨k, htodo k hk, hrun⟩)
  · exact hretry hr

omit [TaskCodec Body] in
/-- After a `requeueOrDead` that did not answer `scheduled` for `id`. -/
theorem afterRequeue_not_owes [BodyCodec Body] {body : Option Body} {id t : String}
    {pc : AgentPc Body} {todo : List (TaskClaim Body)} {acks : List (String × String)}
    {status : Option RequeueStatus} (h : ¬ pc.Owes body id) (htodo : ∀ k ∈ todo, k ∈ pc.todo)
    (hs : t = id → status ≠ some .scheduled) :
    ¬ (afterRequeue t status todo acks).Owes body id := by
  unfold afterRequeue
  split
  · refine not_owes_of_todo h htodo ?_
    rintro ⟨rfl, -⟩
    exact hs rfl rfl
  · refine not_owes_of_todo h htodo ?_
    rintro ⟨-, hd, -⟩
    cases hd
  · exact not_owes_of_todo h htodo nofun

/-- Nobody owes the journal anything about a task that is over, and nobody will. -/
theorem Settled.nobody_step {w w' : World Body} {act : Act} {id : String} (hw : Tracked w)
    (h : Settled id w) (hst : w.step act = some w') :
    ∀ j, ¬ (w'.agents j).Owes (w.engine.redis.task id) id := by
  have move : ∀ {i pc}, ¬ pc.Owes (w.engine.redis.task id) id →
      ∀ j, ¬ ((w.setAgent i pc).agents j).Owes (w.engine.redis.task id) id :=
    fun hpc => setAgent_forall (P := fun pc => ¬ pc.Owes (w.engine.redis.task id) id) h.nobody hpc
  have was : ∀ {i pc}, w.agents i = pc → ¬ pc.Owes (w.engine.redis.task id) id :=
    fun hi => hi ▸ h.nobody _
  cases World.moves hst with
  | claim hi =>
    refine move ?_
    split
    · exact was hi
    · rintro (⟨k, hk, hrun⟩ | hr)
      · exact hw.over_claim h.isOver hk hrun.1
      · exact hr
  | skip hi =>
    exact move (not_owes_of_todo (was hi) (fun k hk => List.mem_cons_of_mem _ hk) nofun)
  | process hi hb ht =>
    exact move (not_owes_of_todo (was hi) (fun k hk => List.mem_cons_of_mem _ hk) nofun)
  | handlerOk hi => exact move (not_owes_of_todo (was hi) (fun _ hk => hk) nofun)
  | handlerFail hi =>
    refine move (afterRequeue_not_owes (was hi) (fun _ hk => hk) ?_)
    rintro rfl
    exact hw.over_retry h.isOver
  | recover hi =>
    refine move (afterRequeue_not_owes (was hi) (fun _ hk => hk) ?_)
    rintro rfl
    exact hw.over_retry h.isOver
  | noReport hi hb => exact move (not_owes_of_todo (was hi) (fun _ hk => hk) nofun)
  | readReport hi hb =>
    refine move (not_owes_of_todo (was hi) (fun _ hk => hk) ?_)
    rintro ⟨rfl, rfl⟩
    exact was hi (.inr ⟨rfl, rfl, by rw [hb]; rfl⟩)
  | writeReport hi => exact move (not_owes_of_todo (was hi) (fun _ hk => hk) nofun)
  | noAck hi => exact move (not_owes_of_todo (was hi) nofun nofun)
  | ack hi => exact move (not_owes_of_todo (was hi) nofun nofun)
  | allSucceeded hi => exact move (not_owes_of_todo (was hi) nofun nofun)
  | succeeded hi => exact move (not_owes_of_todo (was hi) nofun nofun)
  | @agentCrash i => exact move (not_owes_of_todo (h.nobody i) nofun nofun)
  | _ => exact h.nobody

/-- Its rows stay terminal: whoever could set one back would have owed it. -/
theorem Settled.rows_step {w w' : World Body} {act : Act} {id : String} (hw : Tracked w)
    (h : Settled id w) (hst : w.step act = some w') : AllTerminal id w'.journal := by
  cases World.moves hst with
  | @routeStart a clock pgNow hnew =>
    intro row hrow hid
    rcases mem_journalEnqueue hrow with hold | ⟨hnew', -⟩
    · exact h.rows row hold hid
    · obtain ⟨⟨c, hc⟩, -⟩ := hw.over_row h.isOver
      have ha : a.id = id := hnew'.symm.trans hid
      rw [ha, hc] at hnew
      cases hnew
  | routeDone hc hpc => exact h.rows.update keeps_materialized fun _ _ ht => ht
  | @process i claim todo acks body task hi hb ht =>
    refine h.rows.update (keeps_setState _ _ _) fun hid => ?_
    have hne := World.process_id hi hst
    refine absurd (.inl ⟨claim, ?_, hid, hid ▸ hne, ?_⟩) (h.nobody i)
    · rw [hi]
      exact List.mem_cons_self
    · rw [hb]
      exact Option.isSome_of_eq_some ht
  | @writeReport i t dead attempts todo acks due hi =>
    cases dead with
    | true => exact h.rows.update (keeps_setState _ _ _) fun _ _ _ => rfl
    | false =>
      refine h.rows.update (keeps_setState _ _ _) fun hid => ?_
      refine absurd (.inr ?_) (h.nobody i)
      rw [hi]
      exact ⟨hid, rfl⟩
  | succeeded hi => exact h.rows.update (keeps_setState _ _ _) fun _ _ _ => rfl
  | clearRow hk => exact h.rows.update keeps_materialized fun _ _ ht => ht
  | _ => exact h.rows

/-- **Step.** -/
theorem Settled.step {w w' : World Body} {act : Act} {id : String} (hw : Tracked w)
    (h : Settled id w) (hok : NoSweep w act) (hst : w.step act = some w') : Settled id w' := by
  obtain ⟨hover, htask⟩ := hw.over_step hok hst h.isOver
  refine ⟨hover, ?_, h.rows_step hw hst⟩
  rw [htask]
  exact h.nobody_step hw hst

/-- **Run.** -/
theorem Settled.run {w w' : World Body} {acts : List Act} {id : String} (hw : Tracked w)
    (h : Settled id w) (hrun : WorldRun NoSweep w acts w') : Settled id w' := by
  have hboth : Tracked w' ∧ Settled id w' :=
    hrun.invariant (fun w => Tracked w ∧ Settled id w)
      (fun _ _ _ hok hst hi => ⟨hi.1.step hok hst, hi.2.step hi.1 hok hst⟩) ⟨hw, h⟩
  exact hboth.2

/-- What the write reports has happened. -/
theorem SetsTerminal.isOver {w : World Body} {act : Act} {id : String} (hw : Tracked w)
    (hset : SetsTerminal w id act) : (jobOf w.engine.log id).Over := by
  cases act with
  | succeeded i =>
    obtain ⟨ids, hi⟩ := hset
    have hpc := hw.agents i
    rw [hi] at hpc
    exact hw.over_of_finished (.inl (hpc id List.mem_cons_self))
  | writeReport i due =>
    obtain ⟨attempts, todo, acks, hi⟩ := hset
    have hpc := hw.agents i
    rw [hi] at hpc
    exact hw.over_of_finished (.inr (hpc rfl))
  | _ => exact hset.elim

/-- **The write.** It puts the rows of the task in a terminal state and leaves the debts of
its goroutine as they were. -/
theorem SetsTerminal.step_eq {w w' : World Body} {act : Act} {id : String}
    (hset : SetsTerminal w id act) (hst : w.step act = some w') :
    ∃ i pc f, w' = { w with journal := journalUpdate id f w.journal }.setAgent i pc ∧
      (∀ row, (f row).state.terminal = true) ∧
      ∀ body, pc.Owes body id ↔ (w.agents i).Owes body id := by
  cases act with
  | succeeded i =>
    obtain ⟨ids, hi⟩ := hset
    simp only [World.step, World.agentStep, hi] at hst
    refine ⟨i, .succeeding ids, _, (Option.some.inj hst).symm, fun _ => rfl, fun body => ?_⟩
    rw [hi]
    exact iff_of_false not_owes_succeeding not_owes_succeeding
  | writeReport i due =>
    obtain ⟨attempts, todo, acks, hi⟩ := hset
    simp only [World.step, World.agentStep, hi] at hst
    refine ⟨i, .batch todo acks, _, (Option.some.inj hst).symm, fun _ => rfl, fun body => ?_⟩
    rw [hi]
    -- the batch behind the report is the same, and a `dead` report is no debt
    simp [AgentPc.Owes, AgentPc.todo, AgentPc.OwesRetry]
  | _ => exact hset.elim

/-- After the write the rows are terminal. -/
theorem SetsTerminal.rows {w w' : World Body} {act : Act} {id : String}
    (hset : SetsTerminal w id act) (hst : w.step act = some w') : AllTerminal id w'.journal := by
  obtain ⟨i, pc, f, rfl, hf, -⟩ := hset.step_eq hst
  exact .set _ hf

omit [TaskCodec Body] in
/-- One goroutine moves, and its debts stay: so do everybody's. -/
theorem owes_setAgent [BodyCodec Body] {w : World Body} {i : ℕ} {pc : AgentPc Body}
    {body : Option Body} {id : String} (h : pc.Owes body id ↔ (w.agents i).Owes body id) (j : ℕ) :
    ((w.setAgent i pc).agents j).Owes body id ↔ (w.agents j).Owes body id := by
  by_cases hj : j = i
  · subst hj
    rw [World.setAgent_self]
    exact h
  · simp [World.setAgent, hj]

/-- The write leaves everybody's debts as they were. -/
theorem SetsTerminal.owes {w w' : World Body} {act : Act} {id : String}
    (hset : SetsTerminal w id act) (hst : w.step act = some w') (j : ℕ) :
    (w'.agents j).Owes (w'.engine.redis.task id) id ↔
      (w.agents j).Owes (w.engine.redis.task id) id := by
  obtain ⟨i, pc, f, rfl, -, howes⟩ := hset.step_eq hst
  exact owes_setAgent (howes _) j

/-! ## A debt can be paid at any time -/

/-- A row of the task, and one that is not terminal. -/
def HasOpenRow (id : String) (w : World Body) : Prop :=
  ∃ row ∈ w.journal, row.id = id ∧ row.state.terminal = false

omit [TaskCodec Body] in
/-- An update to a non-terminal state opens a row. -/
theorem hasOpenRow_update {w : World Body} {id : String} (hrow : ∃ row ∈ w.journal, row.id = id)
    {f : Row Body → Row Body} (hf : Keeps f) (hopen : ∀ row, (f row).state.terminal = false)
    {i : ℕ} {pc : AgentPc Body} :
    HasOpenRow id ({ w with journal := journalUpdate id f w.journal }.setAgent i pc) := by
  obtain ⟨row, hmem, hid⟩ := hrow
  refine ⟨f row, List.mem_map.mpr ⟨row, hmem, if_pos hid⟩, ?_, hopen row⟩
  rw [hf.id, hid]

omit [TaskCodec Body] in
theorem exists_row_update {rows : List (Row Body)} {id : String} (hrow : ∃ row ∈ rows, row.id = id)
    {f : Row Body → Row Body} (hf : Keeps f) (x : String) :
    ∃ row ∈ journalUpdate x f rows, row.id = id := by
  obtain ⟨row, hmem, hid⟩ := hrow
  refine ⟨_, List.mem_map.mpr ⟨row, hmem, rfl⟩, ?_⟩
  split
  · rw [hf.id, hid]
  · exact hid

/-- Some run leads to an open row. -/
def CanOpen (id : String) (w : World Body) : Prop :=
  ∃ acts w', WorldRun NoSweep w acts w' ∧ HasOpenRow id w'

theorem CanOpen.of_step {id : String} {w w₁ : World Body} {act : Act}
    (hst : w.step act = some w₁) (hok : NoSweep w act) (h : CanOpen id w₁) : CanOpen id w := by
  obtain ⟨acts, w', hrun, hopen⟩ := h
  exact ⟨act :: acts, w', .cons hok hst hrun, hopen⟩

/-- A worker that has a claim of the task in its batch comes to it. -/
theorem batch_opens {id : String} {i : ℕ} (todo : List (TaskClaim Body)) :
    ∀ {w : World Body} {acks : List (String × String)}, w.agents i = .batch todo acks →
      (∃ k ∈ todo, k.WillRun id) → (∃ row ∈ w.journal, row.id = id) → CanOpen id w := by
  induction todo with
  | nil =>
    rintro w acks - ⟨k, hk, -⟩
    cases hk
  | cons claim todo ih =>
    rintro w acks hi ⟨k, hk, hrun⟩ hrow
    rcases List.mem_cons.mp hk with rfl | hk
    · obtain ⟨hid, hne, hbody⟩ := hrun
      obtain ⟨task, ht⟩ := Option.isSome_iff_exists.mp hbody
      obtain ⟨body, hb, hu⟩ := Option.bind_eq_some_iff.mp ht
      have hst : w.step (.process i) =
          some ({ w with journal := journalProcessing k.taskID w.journal }.setAgent i
            (.handling k task todo acks)) := by
        simp [World.step, World.agentStep, hi, hid, hne, hb, hu]
      refine .of_step hst trivial ⟨[], _, .nil, ?_⟩
      rw [hid]
      exact hasOpenRow_update hrow (keeps_setState _ _ _) fun _ => rfl
    · have hst : w.step (.skip i) = some (w.setAgent i (.batch todo acks)) := by
        simp [World.step, World.agentStep, hi]
      exact .of_step hst trivial (ih (w.setAgent_self i _) ⟨k, hk, hrun⟩ hrow)

/-- So does one whose report is next. -/
theorem journaling_opens {id t : String} {i : ℕ} {w : World Body} {dead : Bool} {attempts : Int}
    {todo : List (TaskClaim Body)} {acks : List (String × String)}
    (hi : w.agents i = .journaling t dead attempts todo acks)
    (howes : (∃ k ∈ todo, k.WillRun id) ∨ (t = id ∧ dead = false))
    (hrow : ∃ row ∈ w.journal, row.id = id) : CanOpen id w := by
  have hst : w.step (.writeReport i 0) =
      some ({ w with journal :=
        if dead then journalDead t attempts w.journal
        else journalRetrying t attempts 0 w.journal }.setAgent i (.batch todo acks)) := by
    simp [World.step, World.agentStep, hi]
  refine .of_step hst trivial ?_
  rcases howes with htodo | ⟨rfl, rfl⟩
  · refine batch_opens todo (World.setAgent_self _ i _) htodo ?_
    cases dead with
    | true => exact exists_row_update hrow (keeps_setState _ _ _) t
    | false => exact exists_row_update hrow (keeps_setState _ _ _) t
  · exact ⟨[], _, .nil, hasOpenRow_update hrow (keeps_setState _ _ _) fun _ => rfl⟩

/-- **Debts.** Whoever owes the journal a write can make it. -/
theorem owes_opens {id : String} {i : ℕ} {w : World Body}
    (howes : (w.agents i).Owes (w.engine.redis.task id) id)
    (hrow : ∃ row ∈ w.journal, row.id = id) : CanOpen id w := by
  cases hi : w.agents i with
  | idle =>
    rw [hi] at howes
    exact absurd howes not_owes_idle
  | succeeding ids =>
    rw [hi] at howes
    exact absurd howes not_owes_succeeding
  | batch todo acks =>
    rw [hi] at howes
    exact batch_opens todo hi (howes.resolve_right fun hr => hr) hrow
  | handling claim task todo acks =>
    rw [hi] at howes
    have hst : w.step (.handlerOk i) =
        some (w.setAgent i (.batch todo (acks ++ [(claim.taskID, claim.leaseID)]))) := by
      simp [World.step, World.agentStep, hi]
    refine .of_step hst trivial ?_
    exact batch_opens todo (w.setAgent_self i _) (howes.resolve_right fun hr => hr) hrow
  | journaling t dead attempts todo acks =>
    rw [hi] at howes
    exact journaling_opens hi howes hrow
  | reporting t dead todo acks =>
    rw [hi] at howes
    cases hb : (w.engine.redis.task t).bind unmarshal with
    | none =>
      have hst : w.step (.readReport i) = some (w.setAgent i (.batch todo acks)) := by
        simp [World.step, World.agentStep, hi, hb]
      refine .of_step hst trivial (batch_opens todo (w.setAgent_self i _) ?_ hrow)
      -- there is nothing to read, so the debt is a claim
      refine howes.resolve_right ?_
      rintro ⟨rfl, -, hsome⟩
      rw [hb] at hsome
      cases hsome
    | some task =>
      have hst : w.step (.readReport i) =
          some (w.setAgent i (.journaling t dead task.attempts todo acks)) := by
        simp [World.step, World.agentStep, hi, hb]
      refine .of_step hst trivial (journaling_opens (w.setAgent_self i _) ?_ hrow)
      exact howes.imp_right fun hr => ⟨hr.1, hr.2.1⟩

/-! ## When the row stays terminal -/

/-- **Terminal rows.** After a write that sets the row of a task to `succeeded` or `dead`,
the row is terminal in every state that any interleaving of the gateway, the workers,
recovery and promotion can reach, if and only if nobody owed the journal a `Processing` or
a `Retrying` of the task when the write was made. -/
theorem terminal_row_stays_iff_nobody_owes {w w₁ : World Body} {acts : List Act} {act : Act}
    {id : String} (hrun : WorldRun NoSweep World.init acts w) (hset : SetsTerminal w id act)
    (hst : w.step act = some w₁) :
    (∀ acts' w', WorldRun NoSweep w₁ acts' w' →
        ∀ row ∈ w'.journal, row.id = id → row.state.terminal = true) ↔
      ∀ j, ¬ (w.agents j).Owes (w.engine.redis.task id) id := by
  have hw : Tracked w := Tracked.init.run hrun
  have hok : NoSweep w act := by
    cases act with
    | succeeded i => trivial
    | writeReport i due => trivial
    | _ => exact hset.elim
  have hw₁ : Tracked w₁ := hw.step hok hst
  have hover₁ : (jobOf w₁.engine.log id).Over := (hw.over_step hok hst (hset.isOver hw)).1
  constructor
  · intro hall j howes
    obtain ⟨-, hrow⟩ := hw₁.over_row hover₁
    obtain ⟨acts', w', hrun', row, hmem, hid, hopen⟩ :=
      owes_opens ((hset.owes hst j).mpr howes) hrow
    have hterm := hall acts' w' hrun' row hmem hid
    rw [hopen] at hterm
    cases hterm
  · intro hnobody acts' w' hrun'
    have hsettled : Settled id w₁ :=
      ⟨hover₁, fun j howes => hnobody j ((hset.owes hst j).mp howes), hset.rows hst⟩
    exact (hsettled.run hw₁ hrun').rows

end

/-- A task that one worker handles from its claim to its report. -/
def undisturbed : List Act :=
  [.routeStart sampleArgs 100 100, .routeSet "job", .routePush "job", .routeDone "job",
    .claim 1 ["L1"] 130, .process 1, .handlerOk 1, .ack 1]

/-- Its report is final. -/
theorem terminal_row_stays_iff_nobody_owes_undisturbed :
    ∃ w w₁ : World JsonBody, WorldRun NoSweep World.init undisturbed w ∧
      w.step (.succeeded 1) = some w₁ ∧ SetsTerminal w "job" (.succeeded 1) ∧
      ∀ acts' w', WorldRun NoSweep w₁ acts' w' →
        ∀ row ∈ w'.journal, row.id = "job" → row.state.terminal = true := by
  have hrun : ∃ w : World JsonBody, WorldRun NoSweep World.init undisturbed w ∧
      w.agents 1 = .succeeding ["job"] ∧ ∀ j, j ≠ 1 → w.agents j = .idle := by
    refine ⟨_, .cons trivial rfl <| .cons trivial rfl <| .cons trivial rfl <|
      .cons trivial rfl <| .cons trivial rfl <| .cons trivial rfl <| .cons trivial rfl <|
      .cons trivial rfl .nil, ?_, ?_⟩
    · rfl
    · intro j hj
      simp [World.setAgent, World.init, hj, World.exec, World.setCall]
  obtain ⟨w, hrun, hone, hrest⟩ := hrun
  have hset : SetsTerminal w "job" (.succeeded 1) := ⟨[], hone⟩
  have hst : w.step (.succeeded 1) =
      some ({ w with journal := journalSucceeded "job" w.journal }.setAgent 1 (.succeeding [])) := by
    simp [World.step, World.agentStep, hone]
  refine ⟨w, _, hrun, hst, hset, (terminal_row_stays_iff_nobody_owes hrun hset hst).mpr ?_⟩
  intro j howes
  by_cases hj : j = 1
  · rw [hj, hone] at howes
    exact not_owes_succeeding howes
  · rw [hrest j hj] at howes
    exact not_owes_idle howes

/-! ## Late writes -/

/-- Worker 1 claims the task and stalls; its lease expires, recovery reschedules the task,
and worker 3 finishes it. -/
def finishedByAnother : List Act :=
  [.routeStart sampleArgs 100 100, .routeSet "job", .routePush "job", .routeDone "job",
    .claim 1 ["L1"] 130, .recover 2 "job" 131 1 60, .readReport 2, .writeReport 2 132,
    .promote "job" 132, .claim 3 ["L2"] 170, .process 3, .handlerOk 3, .ack 3, .succeeded 3]

/-- Worker 1 fails the task and stalls before it reports the retry; worker 3 finishes it. -/
def finishedBeforeReport : List Act :=
  [.routeStart sampleArgs 100 100, .routeSet "job", .routePush "job", .routeDone "job",
    .claim 1 ["L1"] 130, .process 1, .handlerFail 1 110 1 60, .readReport 1,
    .promote "job" 111, .claim 3 ["L2"] 170, .process 3, .handlerOk 3, .ack 3, .succeeded 3]

/-- The states of the rows. -/
def World.rowStates (w : World JsonBody) : List (String × TaskState) :=
  w.journal.map fun row => (row.id, row.state)

/-- **A late write undoes a terminal one.** -/
theorem late_write_reopens_row :
    (∃ w w' : World JsonBody, WorldRun NoSweep World.init finishedByAnother w ∧
      WorldRun NoSweep w [.process 1] w' ∧
      w.rowStates = [("job", .succeeded)] ∧ w'.rowStates = [("job", .processing)]) ∧
    (∃ w w' : World JsonBody, WorldRun NoSweep World.init finishedBeforeReport w ∧
      WorldRun NoSweep w [.writeReport 1 111] w' ∧
      w.rowStates = [("job", .succeeded)] ∧ w'.rowStates = [("job", .retrying)]) := by
  have reached : ∀ {acts late : List Act} {before after : List (String × TaskState)},
      (∀ a ∈ acts, ∀ w : World JsonBody, NoSweep w a) →
      (∀ a ∈ late, ∀ w : World JsonBody, NoSweep w a) →
      (runList World.step (World.init : World JsonBody) acts).any (fun w =>
        decide (w.rowStates = before) &&
          (runList World.step w late).any fun w' => decide (w'.rowStates = after)) = true →
      ∃ w w' : World JsonBody, WorldRun NoSweep World.init acts w ∧ WorldRun NoSweep w late w' ∧
        w.rowStates = before ∧ w'.rowStates = after := by
    intro acts late before after hacts hlate hany
    obtain ⟨w, hrun, hp⟩ := Run.exists_of_any hacts hany
    rw [Bool.and_eq_true] at hp
    obtain ⟨w', hrun', hp'⟩ := Run.exists_of_any hlate hp.2
    exact ⟨w, w', hrun, hrun', of_decide_eq_true hp.1, of_decide_eq_true hp'⟩
  constructor
  · refine reached ?_ ?_ (by decide +kernel)
    · simp [finishedByAnother, NoSweep]
    · simp [NoSweep]
  · refine reached ?_ ?_ (by decide +kernel)
    · simp [finishedBeforeReport, NoSweep]
    · simp [NoSweep]

end ForgeQueue
