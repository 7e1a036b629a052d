import ForgeQueue.Logic.Journaled
import ForgeQueue.Model.JsonBody

/-!
# Sweeps and finished tasks

A task finishes in Redis first and in the journal later, and a reconciler works from the
page it read, so a sweep can insert a task that is already finished. It does so only
through a page: either the page was read while the row of the finished task was still
non-terminal, or the task finished while its row was waiting in the page. When neither
happens, no sweep revives a finished task.
-/

namespace ForgeQueue

open Base

/-- The event acknowledges or dead-letters the task. -/
def Event.Finishes (id : String) : Event → Prop
  | .acked t _ => t = id
  | .failed t _ status => t = id ∧ status = some .dead
  | .reclaimed t _ status => t = id ∧ status = some .dead
  | _ => False

theorem finished_iff {log : List Event} {id : String} :
    Finished log id ↔ ∃ ev ∈ log, ev.Finishes id := by
  constructor
  · rintro (⟨l, h⟩ | ⟨l, h⟩ | ⟨l, h⟩)
    · exact ⟨_, h, rfl⟩
    · exact ⟨_, h, rfl, rfl⟩
    · exact ⟨_, h, rfl, rfl⟩
  · rintro ⟨ev, hmem, hev⟩
    cases ev with
    | acked t l =>
      obtain rfl := hev
      exact .inl ⟨l, hmem⟩
    | failed t l status =>
      obtain ⟨rfl, rfl⟩ := hev
      exact .inr (.inl ⟨l, hmem⟩)
    | reclaimed t l status =>
      obtain ⟨rfl, rfl⟩ := hev
      exact .inr (.inr ⟨l, hmem⟩)
    | _ => exact hev.elim

/-- No insertion by a sweep comes after the end of the task. -/
def NotRevived : List Event → Prop
  | [] => True
  | ev :: log => (∀ id, ev = .materialized id → ¬ Finished log id) ∧ NotRevived log

/-- Events that are no insertions keep it. -/
theorem NotRevived.append {log evs : List Event} (h : NotRevived log)
    (hev : ∀ ev ∈ evs, ∀ id, ev ≠ .materialized id) : NotRevived (evs ++ log) := by
  induction evs with
  | nil => exact h
  | cons ev evs ih =>
    refine ⟨fun id he => absurd he (hev ev List.mem_cons_self id), ?_⟩
    exact ih fun x hx => hev x (List.mem_cons_of_mem _ hx)

section Condition

variable {Body : Type}

/-- The ids whose rows wait in the reconciler's page. -/
def ReconcilerPc.waiting (pc : ReconcilerPc Body) : List String := pc.page.map Row.id

variable [BodyCodec Body]

/-- The step acknowledges or dead-letters the task. -/
def FinishesTask (w : World Body) (id : String) : Act → Prop
  | .ack i => ∃ acks, w.agents i = .batch [] acks ∧ id ∈ (ackBatch acks w.engine.redis).2
  | .handlerFail i now base cap => ∃ claim task todo acks,
      w.agents i = .handling claim task todo acks ∧ task.id = id ∧
        (requeueOrDead now base cap task.id claim.leaseID w.engine.redis).2 = some .dead
  | .recover _ taskID now base cap =>
      taskID = id ∧ (requeueOrDead now base cap taskID "" w.engine.redis).2 = some .dead
  | _ => False

/-- The condition: a page that is read holds no row of a finished task, and no task
finishes while its row waits in a page. -/
structure PagesFresh (w : World Body) (act : Act) : Prop where
  read : ∀ k cursor, act = .readPage k → w.reconcilers k = .idle cursor →
    ∀ row ∈ active cursor reconcilePageSize w.journal, ¬ Finished w.engine.log row.id
  wait : ∀ id, FinishesTask w id act → ∀ k, id ∉ (w.reconcilers k).waiting

/-- Rows that wait in a page belong to unfinished tasks, and no sweep has revived a
finished one. -/
structure Unrevived (w : World Body) : Prop where
  waiting : ∀ k, ∀ id ∈ (w.reconcilers k).waiting, ¬ Finished w.engine.log id
  log : NotRevived w.engine.log

omit [BodyCodec Body] in
theorem Unrevived.init : Unrevived (World.init : World Body) where
  waiting _ _ h := by cases h
  log := trivial

/-! ## What ends a task -/

/-- An acknowledgement in the events of an `ackBatch` is in its reply. -/
theorem ackBatch_finishes {r : Redis Body} {now : ℚ} {pairs : List (String × String)}
    {ev : Event} {id : String} (hev : ev ∈ r.events now (.ackBatch pairs))
    (hf : ev.Finishes id) : id ∈ (ackBatch pairs r).2 := by
  obtain ⟨p, hp, rfl⟩ := List.mem_map.mp hev
  obtain rfl : p.1 = id := hf
  rw [ackBatch_acked]
  exact List.mem_map_of_mem hp

/-- A dead-lettering in the events of a `requeueOrDead` is its answer. -/
theorem requeueOrDead_finishes {r : Redis Body} {now base cap : ℚ} {t leaseID : String}
    {ev : Event} {id : String} (hev : ev ∈ r.events now (.requeueOrDead t leaseID base cap))
    (hf : ev.Finishes id) :
    t = id ∧ (requeueOrDead now base cap t leaseID r).2 = some .dead := by
  simp only [Redis.events, requeueEvents] at hev
  unfold requeueOrDead
  cases hg : requeueGuard now t leaseID r with
  | some status => rw [hg] at hev; cases hev
  | none =>
    rw [hg] at hev
    dsimp only at hev ⊢
    split at hev
    · obtain rfl := List.mem_singleton.mp hev
      exact hf
    · obtain rfl := List.mem_singleton.mp hev
      exact hf

/-- A task that is finished after a step was finished before it, or the step ended it. -/
theorem finished_step {w w' : World Body} {act : Act} (hst : w.step act = some w') {id : String}
    (hfin : Finished w'.engine.log id) : Finished w.engine.log id ∨ FinishesTask w id act := by
  have sent : ∀ {now : ℚ} {op : Op Body}, w'.engine = w.engine.exec ⟨now, op⟩ →
      Finished w.engine.log id ∨ ∃ ev ∈ w.engine.redis.events now op, ev.Finishes id := by
    intro now op heq
    rw [heq, finished_iff] at hfin
    obtain ⟨ev, hmem, hf⟩ := hfin
    rcases List.mem_append.mp hmem with hnew | hold
    · exact .inr ⟨ev, List.mem_reverse.mp hnew, hf⟩
    · exact .inl (finished_iff.mpr ⟨ev, hold, hf⟩)
  have quiet : ∀ {now : ℚ} {op : Op Body}, w'.engine = w.engine.exec ⟨now, op⟩ →
      (∀ pairs, op ≠ .ackBatch pairs) → (∀ t l base cap, op ≠ .requeueOrDead t l base cap) →
      Finished w.engine.log id := by
    intro now op heq hack hrequeue
    rcases sent heq with hold | ⟨ev, hev, hf⟩
    · exact hold
    have hsource := Op.emits_source (Redis.emits_of_mem hev)
    cases ev with
    | acked t l =>
      obtain ⟨pairs, hop⟩ := hsource
      exact absurd hop (hack pairs)
    | failed t l status =>
      obtain ⟨base, cap, hop⟩ := hsource
      exact absurd hop (hrequeue t l base cap)
    | reclaimed t l status =>
      obtain ⟨l', base, cap, hop⟩ := hsource
      exact absurd hop (hrequeue t l' base cap)
    | _ => exact hf.elim
  cases World.moves hst with
  | routeSet _ _ => exact .inl (quiet rfl nofun nofun)
  | routePush _ _ => exact .inl (quiet rfl nofun nofun)
  | claim _ => exact .inl (quiet rfl nofun nofun)
  | heartbeat => exact .inl (quiet rfl nofun nofun)
  | promote => exact .inl (quiet rfl nofun nofun)
  | materializeRow _ => exact .inl (quiet rfl nofun nofun)
  | wipe => exact .inl (quiet rfl nofun nofun)
  | handlerFail hi =>
    refine (sent rfl).imp_right ?_
    rintro ⟨ev, hev, hf⟩
    obtain ⟨hid, hdead⟩ := requeueOrDead_finishes hev hf
    exact ⟨_, _, _, _, hi, hid, hdead⟩
  | recover _ =>
    refine (sent rfl).imp_right ?_
    rintro ⟨ev, hev, hf⟩
    exact requeueOrDead_finishes hev hf
  | ack hi =>
    refine (sent rfl).imp_right ?_
    rintro ⟨ev, hev, hf⟩
    exact ⟨_, hi, ackBatch_finishes hev hf⟩
  | _ => exact .inl hfin

/-- **Step.** -/
theorem Unrevived.step {w w' : World Body} {act : Act} (h : Unrevived w)
    (hok : PagesFresh w act) (hst : w.step act = some w') : Unrevived w' := by
  refine ⟨?_, ?_⟩
  · intro k id hin hfin
    have hwas := finished_step hst hfin
    obtain ⟨row, hrow, rfl⟩ := List.mem_map.mp hin
    rcases page_step hst hrow with hold | ⟨cursor, rfl, hk, hpage⟩
    · have hwait : row.id ∈ (w.reconcilers k).waiting := List.mem_map_of_mem hold
      rcases hwas with hwas | hends
      · exact h.waiting k row.id hwait hwas
      · exact hok.wait row.id hends k hwait
    · rcases hwas with hwas | hends
      · exact hok.read k cursor rfl hk row hpage hwas
      · exact hends.elim
  · rcases World.engine_step hst with heq | ⟨now, op, hiss, heq⟩
    · rw [heq]; exact h.log
    rw [heq]
    by_cases hm : ∃ id score payload, op = .materialize id score payload
    · obtain ⟨id, score, payload, rfl⟩ := hm
      obtain ⟨k, clock, next, row, rest, full, -, hk, rfl⟩ := hiss.materialize
      rcases exec_materialize w.engine now row.id score payload with ⟨-, hsame⟩ | ⟨-, hnew⟩
      · rw [hsame]; exact h.log
      · rw [hnew]
        -- the row comes from the page, so its task is unfinished
        refine ⟨?_, h.log⟩
        intro x hx
        obtain rfl : row.id = x := by injection hx
        refine h.waiting k row.id ?_
        rw [hk]
        exact List.mem_cons_self
    · refine h.log.append ?_
      rintro ev hev id rfl
      obtain ⟨score, payload, rfl⟩ :=
        Op.emits_source (Redis.emits_of_mem (List.mem_reverse.mp hev))
      exact hm ⟨id, score, payload, rfl⟩

/-- **No revival.** In every run whose page reads return rows of unfinished tasks only,
and in which no task finishes while its row waits in a page, no sweep inserts a task that
was acknowledged or dead-lettered. -/
theorem sweeps_revive_nothing_when_pages_fresh {acts : List Act} {w : World Body}
    (hrun : WorldRun PagesFresh World.init acts w) : NotRevived w.engine.log := by
  have h : Unrevived w :=
    hrun.invariant Unrevived (fun _ _ _ hok hst hi => hi.step hok hst) .init
  exact h.log

end Condition

/-- The gateway crashes before its Redis writes, a sweep heals the task, a worker
finishes it, and the next sweep finds nothing to do. -/
def healedThenFinished : List Act :=
  [.routeStart sampleArgs 100 100, .routeCrash "job",
    .readPage 0, .materializeRow 0 101, .clearRow 0, .finishPage 0,
    .claim 1 ["L1"] 130, .process 1, .handlerOk 1, .ack 1, .succeeded 1, .readPage 0]

/-- The sweep heals the task once and never revives it. -/
theorem sweeps_revive_nothing_when_pages_fresh_healed :
    ∃ w : World JsonBody, WorldRun PagesFresh World.init healedThenFinished w ∧
      w.engine.log = [.acked "job" "L1", .claimed "job" "L1" 130, .materialized "job"] ∧
      NotRevived w.engine.log := by
  have hrun : ∃ w : World JsonBody, WorldRun PagesFresh World.init healedThenFinished w ∧
      w.engine.log = [.acked "job" "L1", .claimed "job" "L1" 130, .materialized "job"] := by
    refine ⟨_, .cons ⟨nofun, nofun⟩ rfl (.cons ⟨nofun, nofun⟩ rfl (.cons ⟨?_, nofun⟩ rfl
      (.cons ⟨nofun, nofun⟩ rfl (.cons ⟨nofun, nofun⟩ rfl (.cons ⟨nofun, nofun⟩ rfl
      (.cons ⟨nofun, nofun⟩ rfl (.cons ⟨nofun, nofun⟩ rfl (.cons ⟨nofun, nofun⟩ rfl
      (.cons ⟨nofun, ?_⟩ rfl (.cons ⟨nofun, nofun⟩ rfl (.cons ⟨?_, nofun⟩ rfl
      .nil))))))))))), by decide +kernel⟩
    · -- nothing is finished yet
      rintro k cursor - - row - (⟨l, h⟩ | ⟨l, h⟩ | ⟨l, h⟩) <;> cases h
    · -- the only reconciler that moved is idle again
      intro id _ k hin
      by_cases hk : k = 0
      · subst hk
        cases hin
      · change id ∈ (Function.update (Function.update (Function.update (Function.update
          (fun _ => ReconcilerPc.idle zeroCursor) 0 _) 0 _) 0 _) 0 _ k).waiting at hin
        rw [Function.update_of_ne hk, Function.update_of_ne hk, Function.update_of_ne hk,
          Function.update_of_ne hk] at hin
        cases hin
    · -- the row is terminal by now
      rintro k cursor - - row hrow -
      obtain ⟨hmem, hst, -⟩ := mem_active hrow
      obtain rfl := List.mem_singleton.mp hmem
      cases hst
  obtain ⟨w, hrun, hlog⟩ := hrun
  exact ⟨w, hrun, hlog, sweeps_revive_nothing_when_pages_fresh hrun⟩

/-! ## Two ways to revive a task -/

/-- The page is read between the acknowledgement and its journal write. -/
def readBeforeReport : List Act :=
  [.routeStart sampleArgs 100 100, .routeSet "job", .routePush "job", .routeDone "job",
    .claim 1 ["L1"] 130, .process 1, .handlerOk 1, .ack 1,
    .readPage 0, .materializeRow 0 102]

/-- The page is read before the task is dead-lettered and reported. -/
def deadWhileWaiting : List Act :=
  [.routeStart { sampleArgs with maxRetries := 1 } 100 100, .routeSet "job", .routePush "job",
    .routeDone "job", .claim 1 ["L1"] 130, .process 1, .readPage 0,
    .handlerFail 1 101 1 60, .readReport 1, .writeReport 1 0, .materializeRow 0 102]

/-- **Revival.** Without any wipe or crash a sweep inserts an acknowledged task, and a
dead-lettered one whose report is already in the journal. -/
theorem sweep_revives_finished_tasks :
    (∃ w : World JsonBody, WorldRun (fun _ act => act ≠ .wipe) World.init readBeforeReport w ∧
      w.engine.redis.Live "job" ∧ ¬ NotRevived w.engine.log) ∧
    (∃ w : World JsonBody, WorldRun (fun _ act => act ≠ .wipe) World.init deadWhileWaiting w ∧
      w.engine.redis.Live "job" ∧ ¬ NotRevived w.engine.log) := by
  have reached : ∀ {acts : List Act} {w : World JsonBody}, .wipe ∉ acts →
      runList World.step World.init acts = some w →
      WorldRun (fun _ act => act ≠ .wipe) World.init acts w :=
    fun hno h => .of_runList (fun a ha _ he => hno (he ▸ ha)) h
  constructor
  · have hend : (runList World.step (World.init : World JsonBody) readBeforeReport).any
        (fun w => decide (w.engine.redis.Live "job" ∧ w.engine.log =
          [.materialized "job", .acked "job" "L1", .claimed "job" "L1" 130,
            .enqueued sampleArgs, .bodySet sampleArgs])) = true := by
      decide +kernel
    obtain ⟨w, hw, hp⟩ := (Option.any_eq_true _ _).mp hend
    obtain ⟨hlive, hlog⟩ := of_decide_eq_true hp
    refine ⟨w, reached (by decide) hw, hlive, ?_⟩
    rw [hlog]
    intro h
    exact h.1 "job" rfl (.inl ⟨"L1", by simp⟩)
  · have hend : (runList World.step (World.init : World JsonBody) deadWhileWaiting).any
        (fun w => decide (w.engine.redis.Live "job" ∧ w.engine.log =
          [.materialized "job", .failed "job" "L1" (some .dead), .claimed "job" "L1" 130,
            .enqueued { sampleArgs with maxRetries := 1 },
            .bodySet { sampleArgs with maxRetries := 1 }])) = true := by
      decide +kernel
    obtain ⟨w, hw, hp⟩ := (Option.any_eq_true _ _).mp hend
    obtain ⟨hlive, hlog⟩ := of_decide_eq_true hp
    refine ⟨w, reached (by decide) hw, hlive, ?_⟩
    rw [hlog]
    intro h
    exact h.1 "job" rfl (.inr (.inl ⟨"L1", by simp⟩))

end ForgeQueue
