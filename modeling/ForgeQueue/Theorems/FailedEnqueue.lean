import ForgeQueue.Logic.Pages
import ForgeQueue.Logic.Scripts
import ForgeQueue.Model.JsonBody
import ForgeQueue.Model.Routing
import Mathlib.Tactic.NormNum

/-!
# An enqueue that was reported as failed

`RouteTask` journals first and undoes nothing. Once the row is written, an error of a later
step is still an error for the client, but the reconciler finds the row and queues the
task; and after the last write to Redis the task is queued already. Only a call that fails
before it wrote anything that leads to a queue entry leaves nothing that can run.
-/

namespace ForgeQueue

open Base

variable {Body : Type}

/-! ## Ids that nobody knows -/

/-- Nothing in Redis, in the journal or in a reconciler's page leads to a queue entry of the
task. -/
structure Unknown (w : World Body) (id : String) : Prop where
  absent : ¬ w.engine.redis.Live id
  unjournaled : id ∉ w.journal.map Row.id
  unread : ∀ k, ∀ row ∈ (w.reconcilers k).page, row.id ≠ id

/-- What runs later: promotion loops, claims and reconciler sweeps. -/
def LaterAct {Body : Type} (_ : World Body) : Act → Prop
  | .promote .. | .claim .. | .readPage _ | .materializeRow .. | .clearRow _ | .finishPage _ =>
    True
  | _ => False

variable [BodyCodec Body]

/-- No claim and no promotion brings in a task that is nowhere, and a sweep only brings in
the rows it has read. -/
theorem absent_after {r r' : Redis Body} {id : String} {ev : Event} (heff : Effect r ev r')
    (hev : (∃ t l e, ev = .claimed t l e) ∨ (∃ t, ev = .promoted t) ∨
      ∃ t, ev = .materialized t ∧ t ≠ id)
    (h : ¬ r.Live id) : ¬ r'.Live id := by
  by_cases hsub : ev.subject = some id
  · simp only [Redis.Live, not_or] at h
    rcases hev with ⟨t, l, e, rfl⟩ | ⟨t, rfl⟩ | ⟨t, rfl, hne⟩
    · obtain rfl : t = id := Option.some.inj hsub
      cases heff with
      | claimed _ ready _ _ _ hr => exact absurd (hr ▸ List.mem_cons_self) h.1
    · obtain rfl : t = id := Option.some.inj hsub
      cases heff with
      | promoted _ score _ hs _ => exact absurd (by rw [hs]; rfl) h.2.2
    · exact absurd (Option.some.inj hsub) hne
  · have hw : ev ≠ .wiped := by
      rintro rfl
      rcases hev with ⟨_, _, _, h⟩ | ⟨_, h⟩ | ⟨_, h, -⟩ <;> cases h
    exact fun hlive => h ((heff.sameAt hsub hw).live.mp hlive)

/-- **Step.** An unknown id stays unknown. -/
theorem Unknown.step {w w' : World Body} {act : Act} {id : String} (h : Unknown w id)
    (hlater : LaterAct w act) (hst : w.step act = some w') : Unknown w' id where
  absent := by
    rcases World.engine_step hst with heq | ⟨now, op, hop, heq⟩
    · rw [heq]
      exact h.absent
    · rw [heq]
      refine (w.engine.redis.after_trace now op).keeps (P := fun r => ¬ r.Live id) ?_ h.absent
      intro r ev r' hev heff
      refine absent_after heff ?_
      have hemits := Redis.emits_of_mem hev
      cases act with
      | claim i leaseIDs expiry =>
        obtain rfl : op = _ := hop
        obtain ⟨t, l, -, rfl⟩ := hemits
        exact .inl ⟨t, l, expiry, rfl⟩
      | promote t now =>
        obtain rfl : op = _ := hop
        exact .inr (.inl ⟨t, hemits⟩)
      | materializeRow k clock =>
        obtain ⟨next, row, rest, full, hk, rfl⟩ := hop
        refine .inr (.inr ⟨row.id, hemits, h.unread k row ?_⟩)
        rw [hk]
        exact List.mem_cons_self
      | readPage k => exact hop.elim
      | clearRow k => exact hop.elim
      | finishPage k => exact hop.elim
      | _ => exact hlater.elim
  unjournaled := by
    cases World.moves hst with
    | clearRow _ =>
      show id ∉ (journalMaterialized _ w.journal).map Row.id
      rw [map_id_eq, journalMaterialized, journalUpdate_keys keeps_materialized, ← map_id_eq]
      exact h.unjournaled
    | claim _ => exact h.unjournaled
    | promote => exact h.unjournaled
    | readPage _ => exact h.unjournaled
    | materializeRow _ => exact h.unjournaled
    | finishPage _ => exact h.unjournaled
    | _ => exact hlater.elim
  unread := by
    intro k row hrow
    rcases page_step hst hrow with hold | ⟨cursor, -, -, hpage⟩
    · exact h.unread k row hold
    · intro hid
      exact h.unjournaled (hid ▸ List.mem_map_of_mem (mem_active hpage).1)

/-- **Run.** An unknown task is never in flight. -/
theorem Unknown.run {w w' : World Body} {acts : List Act} {id : String} (h : Unknown w id)
    (hrun : WorldRun LaterAct w acts w') : w'.engine.redis.inflight id = none := by
  have h' := Run.invariant (Unknown · id) (fun _ _ _ hlater hst hu => hu.step hlater hst) hrun h
  have hlive := h'.absent
  simp only [Redis.Live, not_or, Option.not_isSome_iff_eq_none] at hlive
  exact hlive.2.1

/-! ## Queue entries run -/

/-- The task gets into flight in some later run. -/
def CanRun (w : World Body) (id : String) : Prop :=
  ∃ acts w', WorldRun LaterAct w acts w' ∧ (w'.engine.redis.inflight id).isSome

/-- One more step in front. -/
theorem CanRun.of_step {w w' : World Body} (act : Act) {id : String} (h : CanRun w' id)
    (hlater : LaterAct w act) (hst : w.step act = some w') : CanRun w id := by
  obtain ⟨acts, w'', hrun, hin⟩ := h
  exact ⟨act :: acts, w'', .cons hlater hst hrun, hin⟩

/-- The head of the ready list is claimed. -/
theorem CanRun.of_ready {w : World Body} {id : String} {rest : List String}
    (hidle : w.agents 0 = .idle) (hp : w.engine.redis.paused = false)
    (hready : w.engine.redis.immediate = id :: rest) : CanRun w id := by
  refine ⟨[.claim 0 ["lease"] 0], _, .cons trivial (by
    simp only [World.step, World.agentStep, hidle]
    rfl) .nil, ?_⟩
  show ((claimBatch ["lease"] 0 w.engine.redis).1.inflight id).isSome
  simp [claimBatch, hp, claimLoop, hready]

/-- A queue entry written by `ZADD` or `LPUSH` is promoted, if need be, and claimed. -/
theorem CanRun.of_push {w : World Body} {id : String} (target : Option ℚ) (r : Redis Body)
    (hidle : w.agents 0 = .idle) (hp : r.paused = false)
    (hpush : w.engine.redis = routePush target id r) : CanRun w id := by
  cases target with
  | none =>
    have hready : w.engine.redis.immediate = id :: r.immediate := by
      rw [hpush]
      rfl
    refine .of_ready hidle ?_ hready
    rw [hpush]
    exact hp
  | some score =>
    have hpromote : (promoteTask score id w.engine.redis).1 =
        { w.engine.redis with
          scheduled := del w.engine.redis.scheduled id
          immediate := id :: w.engine.redis.immediate } := by
      simp [promoteTask, hpush, routePush]
    have hready : (promoteTask score id w.engine.redis).1.immediate =
        id :: w.engine.redis.immediate := by
      rw [hpromote]
    refine CanRun.of_step (.promote id score) ?_ trivial rfl
    refine .of_ready hidle ?_ hready
    show (promoteTask score id w.engine.redis).1.paused = false
    rw [hpromote, hpush]
    exact hp

/-- A row at the front of an idle reconciler's walk is queued again, and then claimed. -/
theorem CanRun.of_journaled {w : World Body} (row : Row Body) (hidle : w.agents 0 = .idle)
    (hsweep : w.reconcilers 0 = .idle zeroCursor) (hp : w.engine.redis.paused = false)
    (habsent : ¬ w.engine.redis.Live row.id)
    (hpage : active zeroCursor reconcilePageSize w.journal = [row]) : CanRun w row.id := by
  have hread : w.step (.readPage 0) = some (w.setReconciler 0 (.sweeping zeroCursor [row]
      (decide (([row] : List (Row Body)).length = reconcilePageSize)))) := by
    simp only [World.step, World.reconcilerStep, hsweep, hpage]
  refine CanRun.of_step (.readPage 0) ?_ trivial hread
  refine CanRun.of_step (.materializeRow 0 0) ?_ trivial rfl
  refine CanRun.of_push (materializeScore 0 row)
    { w.engine.redis with task := put w.engine.redis.task row.id row.payload } hidle hp ?_
  show (materializeScript row.id (materializeScore 0 row) row.payload w.engine.redis).1 = _
  unfold materializeScript
  rw [if_neg habsent]
  cases materializeScore 0 row with
  | none => rfl
  | some score => rfl

/-! ## The result -/

/-- The task of a call that returned an error is never in flight, whatever the stores held
before (nothing of this task) and whatever runs later. -/
def FailedNeverRuns (Body : Type) [BodyCodec Body] (journalOn : Bool) (fails : RouteStep → Bool)
    (a : RouteArgs) : Prop :=
  ∀ (w : World Body) (clock pgNow : ℚ), Unknown w a.id →
    (routeTask journalOn fails clock pgNow a w).2.isSome →
    ∀ acts w', WorldRun LaterAct (routeTask journalOn fails clock pgNow a w).1 acts w' →
      w'.engine.redis.inflight a.id = none

omit [BodyCodec Body] in
/-- Nobody knows a task in an empty world. -/
theorem Unknown.init (id : String) : Unknown (World.init : World Body) id where
  absent := by rintro (h | h | h) <;> cases h
  unjournaled := List.not_mem_nil
  unread := by rintro k row ⟨⟩

/-- A body that is written belongs to no queue entry. -/
theorem Unknown.routeBody {w : World Body} {id : String} (h : Unknown w id) (now : ℚ)
    (a : RouteArgs) : Unknown (w.exec now (.routeBody a)) id :=
  ⟨h.absent, h.unjournaled, h.unread⟩

/-- Without the journal an error comes before the queue entry. -/
theorem Unknown.routeTask_off {w : World Body} {a : RouteArgs} (h : Unknown w a.id)
    {fails : RouteStep → Bool} {clock pgNow : ℚ}
    (herr : (routeTask false fails clock pgNow a w).2.isSome) :
    Unknown (routeTask false fails clock pgNow a w).1 a.id := by
  unfold routeTask at herr ⊢
  by_cases hset : fails .set = true
  · simp only [hset, if_true]
    exact h
  · by_cases hpush : fails .push = true
    · simp only [hset, hpush, if_true]
      exact h.routeBody clock a
    · simp [hset, hpush] at herr

/-- The row a call journals at time 0. -/
def journaledRow (a : RouteArgs) : Row Body :=
  { routeRow 0 a with redisPending := true, createdAt := 0 }

/-- In an otherwise empty journal it is the page of the next sweep. -/
theorem active_journaledRow (a : RouteArgs) :
    active zeroCursor reconcilePageSize [(journaledRow a : Row Body)] = [journaledRow a] := by
  have hlt : zeroCursor < (journaledRow a : Row Body).key := by
    refine Prod.Lex.lt_iff.mpr (.inl ?_)
    show (-62135596800 : ℚ) < 0
    norm_num
  have hstate : (journaledRow a : Row Body).state.terminal = false := rfl
  simp [active, hlt, hstate, reconcilePageSize]

variable (Body) in
/-- Once it is journaled, a task whose call fails can run. -/
theorem canRun_of_error {fails : RouteStep → Bool} (a : RouteArgs)
    (henq : fails .enqueue = false) (hsome : ∃ step, fails step = true) :
    (routeTask true fails 0 0 a (World.init : World Body)).2.isSome ∧
      CanRun (routeTask true fails 0 0 a (World.init : World Body)).1 a.id := by
  have habsent : ¬ (World.init : World Body).engine.redis.Live a.id := (Unknown.init a.id).absent
  unfold routeTask
  by_cases hset : fails .set = true
  · simp only [henq, hset, Bool.and_false, Bool.false_eq_true, if_false, if_true,
      Option.isSome_some, true_and]
    exact .of_journaled (journaledRow a) rfl rfl rfl habsent (active_journaledRow a)
  · by_cases hpush : fails .push = true
    · simp only [henq, hset, hpush, Bool.and_false, Bool.false_eq_true, if_false, if_true,
        Option.isSome_some, true_and]
      exact .of_journaled (journaledRow a) rfl rfl rfl habsent (active_journaledRow a)
    · have hmat : fails .materialized = true := by
        obtain ⟨step, hstep⟩ := hsome
        cases step with
        | enqueue => rw [henq] at hstep; cases hstep
        | set => exact absurd hstep hset
        | push => exact absurd hstep hpush
        | materialized => exact hstep
      simp only [henq, hset, hpush, hmat, Bool.and_false, Bool.and_true, Bool.false_eq_true,
        if_false, if_true, Option.isSome_some, true_and]
      -- Redis holds the task; only the journal does not know yet
      exact .of_push (routeTarget 0 a) _ rfl rfl rfl

/-- **An enqueue reported as failed does not run, exactly if nothing was journaled for it.**
For every configuration, every choice of steps that fail and every task: the task of a call
that returned an error can never get into flight if and only if the journal is off, or the
journal write is what failed, or no step fails and there is no error to report. -/
theorem failed_enqueue_never_runs_iff (journalOn : Bool) (fails : RouteStep → Bool)
    (a : RouteArgs) :
    FailedNeverRuns Body journalOn fails a ↔
      journalOn = false ∨ fails .enqueue = true ∨ ∀ step, fails step = false := by
  constructor
  · intro hnever
    by_contra hno
    rw [not_or, not_or, Bool.not_eq_false, Bool.not_eq_true, not_forall] at hno
    obtain ⟨rfl, henq, step, hstep⟩ := hno
    obtain ⟨herr, acts, w', hrun, hin⟩ :=
      canRun_of_error Body a henq ⟨step, by simpa using hstep⟩
    rw [hnever _ 0 0 (.init a.id) herr acts w' hrun] at hin
    cases hin
  · rintro (rfl | henq | hnone) w clock pgNow hunknown herr acts w' hrun
    · exact (hunknown.routeTask_off herr).run hrun
    · cases journalOn with
      | false => exact (hunknown.routeTask_off herr).run hrun
      | true =>
        rw [routeTask, henq] at hrun
        exact hunknown.run hrun
    · simp [routeTask, hnone] at herr

/-- `LPUSH` fails after the row was journaled. -/
def pushFails : RouteStep → Bool
  | .push => true
  | _ => false

/-- The client is told that the task was not queued; a sweep queues it and a worker claims
it. -/
theorem failed_enqueue_runs_push :
    ¬ ∀ (journalOn : Bool) (fails : RouteStep → Bool) (a : RouteArgs),
      FailedNeverRuns JsonBody journalOn fails a := by
  intro hall
  obtain ⟨herr, acts, w', hrun, hin⟩ :=
    canRun_of_error JsonBody sampleArgs (show pushFails .enqueue = false from rfl) ⟨.push, rfl⟩
  rw [hall true pushFails sampleArgs _ 0 0 (.init _) herr acts w' hrun] at hin
  cases hin

end ForgeQueue
