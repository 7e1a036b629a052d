import ForgeQueue.Logic.Bodies
import ForgeQueue.Model.JsonBody

/-!
# Rebuilding a task from its row

After a wipe `materialize` writes the payload of a row back. The payload is the body the
gateway wrote, with the counter at zero, and the counter the journal keeps in a column of
its own is not read. So the rebuilt body is the one Redis had exactly if the task has
not failed since its body was last written whole; and since the rebuilt body grants the
whole budget again, the budget holds across the wipe exactly if the task has not failed at
all.
-/

namespace ForgeQueue

open Base

section

variable {Body : Type} [BodyCodec Body]

/-- The scripts of the workers, recovery and the promotion loop. -/
def WorkerCall (_ : Engine Body) (c : Call Body) : Prop :=
  match c.op with
  | .claimBatch .. | .heartbeat .. | .ackBatch _ | .requeueOrDead .. | .promoteTask _ => True
  | _ => False

/-- The server after a wipe and the materialization of one row. -/
def Engine.rebuilt (e : Engine Body) (clock : ℚ) (row : Row Body) : Engine Body :=
  (e.exec ⟨0, .wipe⟩).exec ⟨0, .materialize row.id (materializeScore clock row) row.payload⟩

/-- What rebuilding a row promises, when Redis had the body `b` before the wipe: the
rebuilt body has the same id, type, payload, `max_retries` and `attempts`, and no run of
the workers from there on takes the task over its budget, earlier failures included. -/
structure Rebuilds (e : Engine Body) (clock : ℚ) (row : Row Body) (b : Body) : Prop where
  record : ∃ b', (e.rebuilt clock row).redis.task row.id = some b' ∧ unmarshal b' = unmarshal b
  budget : ∀ t, unmarshal row.payload = some t → 0 < t.maxRetries →
    ∀ cs e', EngineRun WorkerCall (e.rebuilt clock row) cs e' → e'.failures row.id ≤ t.maxRetries

/-! ## The rebuilt server -/

theorem Engine.rebuilt_redis (e : Engine Body) (clock : ℚ) (row : Row Body) :
    (e.rebuilt clock row).redis = routePush (materializeScore clock row) row.id
      { (Redis.empty : Redis Body) with task := put nothing row.id row.payload } := by
  have hdead : ¬ (Redis.empty : Redis Body).Live row.id := by
    rintro (hm | hi | hs)
    · cases hm
    · cases hi
    · cases hs
  rcases exec_materialize (e.exec ⟨0, .wipe⟩) 0 row.id (materializeScore clock row) row.payload
    with ⟨hlive, -⟩ | ⟨-, hnew⟩
  · exact absurd hlive hdead
  · rw [Engine.rebuilt, hnew]
    rfl

/-- The failures before the wipe still count. -/
theorem Engine.rebuilt_failures (e : Engine Body) (clock : ℚ) (row : Row Body) :
    (e.rebuilt clock row).failures row.id = e.failures row.id := by
  rcases exec_materialize (e.exec ⟨0, .wipe⟩) 0 row.id (materializeScore clock row) row.payload
    with ⟨-, hsame⟩ | ⟨-, hnew⟩
  · rw [Engine.rebuilt, hsame]
    simp [Engine.failures, Engine.exec, Redis.events, Event.failureOf]
  · rw [Engine.rebuilt, hnew]
    simp [Engine.failures, Engine.exec, Redis.events, Event.failureOf]

theorem Engine.rebuilt_task (e : Engine Body) (clock : ℚ) (row : Row Body) :
    (e.rebuilt clock row).redis.task row.id = some row.payload := by
  rw [Engine.rebuilt_redis]
  cases materializeScore clock row <;> exact put_self _ _ _

/-- The history is not read: from the same server with another history the same run
does the same. -/
theorem EngineRun.relog {cs : List (Call Body)} {e e' : Engine Body}
    (h : EngineRun WorkerCall e cs e') :
    ∀ {e₁ : Engine Body}, e₁.redis = e.redis → ∃ e₁', EngineRun WorkerCall e₁ cs e₁' ∧
      ∃ evs, e'.log = evs ++ e.log ∧ e₁'.log = evs ++ e₁.log := by
  induction h with
  | nil => exact fun _ => ⟨_, .nil, [], rfl, rfl⟩
  | @cons e c e₂ cs e' hok hst _ ih =>
    intro e₁ hred
    obtain rfl : e.exec c = e₂ := Option.some.inj hst
    have hnext : (e₁.exec c).redis = (e.exec c).redis := by
      simp only [Engine.exec, hred]
    obtain ⟨e₁', hrun, evs, hlog, hlog₁⟩ := ih hnext
    refine ⟨e₁', .cons hok rfl hrun, evs ++ (e.redis.events c.now c.op).reverse, ?_, ?_⟩
    · rw [hlog, List.append_assoc]
      rfl
    · rw [hlog₁, List.append_assoc, ← hred]
      rfl

omit [BodyCodec Body] in
/-- The scripts of the workers are core calls. -/
theorem WorkerCall.core {e : Engine Body} {c : Call Body} (h : WorkerCall e c) : CoreCall e c := by
  obtain ⟨now, op⟩ := c
  cases op <;> first | exact trivial | exact h.elim

end

section

variable {Body : Type} [TaskCodec Body]

/-- The rebuilt server is the one that the gateway leaves after a single call, up to the due
time. -/
theorem rebuilt_counted {row : Row Body} {a : RouteArgs} (hid : a.id = row.id)
    (hpay : row.payload = marshal (routeData a)) (e : Engine Body) (clock : ℚ) :
    ∃ (a' : RouteArgs) (e₀ : Engine Body), a'.id = row.id ∧ a'.maxRetries = a.maxRetries ∧
      e₀.redis = (e.rebuilt clock row).redis ∧ e₀.log = [.enqueued a', .bodySet a'] ∧
      Refines e₀.redis e₀.log ∧ Counted e₀.log := by
  have hcall : ∀ delay : Int64, ∃ cs e₁, EngineRun CoreCall .init cs e₁ ∧
      e₁.redis = routePush (routeTarget 0 { a with delaySeconds := delay }) row.id
        { (Redis.empty : Redis Body) with task := put nothing row.id row.payload } ∧
      e₁.log = [.enqueued { a with delaySeconds := delay },
        .bodySet { a with delaySeconds := delay }] := by
    intro delay
    have hrun : EngineRun CoreCall (.init : Engine Body)
        [⟨0, .routeBody { a with delaySeconds := delay }⟩,
          ⟨0, .routePush { a with delaySeconds := delay } 0⟩] _ := core_run_enqueue .nil
    refine ⟨_, _, hrun, ?_, rfl⟩
    rw [hpay, ← hid]
    rfl
  rw [Engine.rebuilt_redis]
  cases materializeScore clock row with
  | none =>
    obtain ⟨cs, e₁, hrun, hred, hlog⟩ := hcall 0
    exact ⟨{ a with delaySeconds := 0 }, e₁, hid, rfl, hred, hlog, core_counted hrun⟩
  | some s =>
    obtain ⟨cs, e₁, hrun, hred, hlog⟩ := hcall 1
    obtain ⟨href, hcnt⟩ := core_counted hrun
    rw [hred] at href
    -- the score is another one, and nothing depends on it
    refine ⟨{ a with delaySeconds := 1 }, ⟨_, e₁.log⟩, hid, rfl, rfl, hlog,
      href.rescore fun id => ?_, hcnt⟩
    show (put nothing row.id s id).isSome = (put nothing row.id _ id).isSome
    by_cases hrow : id = row.id
    · rw [hrow, put_self, put_self]
      rfl
    · rw [put_of_ne _ _ hrow, put_of_ne _ _ hrow]

/-- **Enough.** From the rebuilt server the workers add at most one whole budget. -/
theorem rebuilt_budget {row : Row Body} {a : RouteArgs} (hid : a.id = row.id)
    (hpay : row.payload = marshal (routeData a)) (hpos : 0 < a.maxRetries.toInt)
    {e e' : Engine Body} {clock : ℚ} {cs : List (Call Body)}
    (hrun : EngineRun WorkerCall (e.rebuilt clock row) cs e') :
    e'.failures row.id ≤ e.failures row.id + a.maxRetries.toInt := by
  obtain ⟨a', e₀, hid', hmax, hred, hlog₀, h₀⟩ := rebuilt_counted hid hpay e clock
  obtain ⟨e₁, hrun₁, evs, hlog, hlog₁⟩ := EngineRun.relog hrun hred
  obtain ⟨href, hcnt⟩ := counted_run (hrun₁.mono fun _ _ _ hok _ => hok.core) h₀
  have hborn : .enqueued a' ∈ e₁.log := by
    rw [hlog₁, hlog₀]
    simp
  have hbudget := hcnt.budget a' hborn
  rw [hid', hmax] at hbudget
  have hcount := hcnt.failures row.id
  have hok := (href.holds row.id).ok
  -- the new failures are those of the job
  have hnew : (evs.countP (Event.failureOf row.id) : ℤ) = (jobOf e₁.log row.id).failures := by
    rw [hcount, hlog₁, hlog₀]
    simp [Event.failureOf]
  have htotal : e'.failures row.id = evs.countP (Event.failureOf row.id) + e.failures row.id := by
    rw [← Engine.rebuilt_failures e clock row, Engine.failures, hlog, List.countP_append]
    push_cast
    rfl
  have hle : ((jobOf e₁.log row.id).failures : ℤ) ≤ a.maxRetries.toInt := by
    by_cases hb : (jobOf e₁.log row.id).place = .buried
    · have := (hok.buried hb).2
      omega
    · have := hok.within hb (by rw [hbudget]; exact hpos)
      omega
  omega

/-! ## The budget can be used up -/

/-- The task waits alone, and its body is the record `t`. -/
structure Waits (id : String) (t : ModelTask) (r : Redis Body) : Prop where
  open_ : r.paused = false
  body : ∃ b, r.task id = some b ∧ IsDoc b t
  place : r.immediate = [id] ∨ (r.immediate = [] ∧ ∃ s, r.scheduled id = some s)

/-- A promotion makes it ready, if it is not. -/
theorem Waits.ready {id : String} {t : ModelTask} {e : Engine Body} (h : Waits id t e.redis) :
    ∃ cs e', EngineRun WorkerCall e cs e' ∧ e'.failures id = e.failures id ∧
      Waits id t e'.redis ∧ e'.redis.immediate = [id] := by
  rcases h.place with hready | ⟨hempty, s, hs⟩
  · exact ⟨[], e, .nil, rfl, h, hready⟩
  · have hprom : promoteTask s id e.redis =
        ({ e.redis with scheduled := del e.redis.scheduled id, immediate := [id] }, true) := by
      simp [promoteTask, hs, hempty]
    have hexec : e.exec ⟨s, .promoteTask id⟩ =
        ⟨{ e.redis with scheduled := del e.redis.scheduled id, immediate := [id] },
          .promoted id :: e.log⟩ := by
      simp [Engine.exec, Redis.after, Redis.events, hprom]
    refine ⟨[⟨s, .promoteTask id⟩], _, .cons trivial rfl .nil, ?_, ?_, ?_⟩
    · rw [hexec]
      simp [Engine.failures, Event.failureOf]
    · rw [hexec]
      exact ⟨h.open_, h.body, .inl rfl⟩
    · rw [hexec]

/-- The server after the claim. -/
def Redis.claimedAlone (r : Redis Body) (id : String) : Redis Body :=
  { r with
    immediate := []
    inflight := put r.inflight id 0
    leases := put r.leases id "L" }

/-- One round: the task is claimed and the attempt fails. -/
theorem Waits.round {id : String} {t : ModelTask} {e : Engine Body} (h : Waits id t e.redis) :
    ∃ cs e', EngineRun WorkerCall e cs e' ∧ e'.failures id = e.failures id + 1 ∧
      (¬ t.Exhausted → Waits id t.bump e'.redis) := by
  obtain ⟨cs, e₁, hrun, hfail, hw, himm⟩ := h.ready
  obtain ⟨b, hb, hdoc⟩ := hw.body
  -- the claim pops the only entry
  have hclaim : e₁.exec ⟨0, .claimBatch ["L"] 0⟩ =
      ⟨e₁.redis.claimedAlone id, .claimed id "L" 0 :: e₁.log⟩ := by
    simp [Engine.exec, Redis.after, Redis.events, claimBatch, claimLoop, hw.open_, himm,
      Redis.claimedAlone]
  have hguard : requeueGuard 0 id "L" (e₁.redis.claimedAlone id) = none := by
    simp [requeueGuard, Redis.claimedAlone]
  obtain ⟨b', hdoc', heq⟩ :=
    retryOrBury_doc 0 0 0 id ((e₁.redis.claimedAlone id).release id) hb hdoc
  have hexec : (e₁.exec ⟨0, .claimBatch ["L"] 0⟩).exec ⟨0, .requeueOrDead id "L" 0 0⟩ =
      ⟨(retryOrBury 0 0 0 id ((e₁.redis.claimedAlone id).release id)).1,
        .failed id "L" (retryOrBury 0 0 0 id ((e₁.redis.claimedAlone id).release id)).2 ::
          .claimed id "L" 0 :: e₁.log⟩ := by
    rw [hclaim]
    simp [Engine.exec, Redis.after, Redis.events, requeueOrDead, requeueEvents, hguard]
  have htwo : EngineRun WorkerCall e₁ [⟨0, .claimBatch ["L"] 0⟩, ⟨0, .requeueOrDead id "L" 0 0⟩]
      ((e₁.exec ⟨0, .claimBatch ["L"] 0⟩).exec ⟨0, .requeueOrDead id "L" 0 0⟩) :=
    .cons trivial rfl (.cons trivial rfl .nil)
  refine ⟨_, _, hrun.append htwo, ?_, ?_⟩
  · rw [hexec, ← hfail]
    simp [Engine.failures, Event.failureOf]
  · intro hmore
    rw [hexec, heq, if_neg hmore]
    exact ⟨hw.open_, ⟨b', put_self _ _ _, hdoc'⟩, .inr ⟨rfl, _, put_self _ _ _⟩⟩

/-- **All of it.** As many attempts fail as the record still allows. -/
theorem Waits.exhaust {id : String} (n : ℕ) :
    ∀ {t : ModelTask} {e : Engine Body}, Waits id t e.redis → t.maxRetries = t.attempts + n →
      ∃ cs e', EngineRun WorkerCall e cs e' ∧ e'.failures id = e.failures id + n := by
  induction n with
  | zero =>
    intro t e _ _
    exact ⟨[], e, .nil, by simp⟩
  | succ n ih =>
    intro t e h hleft
    obtain ⟨cs, e₁, hrun, hfail, hnext⟩ := h.round
    by_cases hn : n = 0
    · subst hn
      exact ⟨cs, e₁, hrun, by rw [hfail]; simp⟩
    · have hmore : ¬ t.Exhausted := by
        intro hx
        have := hx.2
        push_cast at hleft
        omega
      obtain ⟨cs', e', hrun', hfail'⟩ := ih (hnext hmore) (by
        show t.maxRetries = t.attempts + 1 + n
        push_cast at hleft
        omega)
      refine ⟨cs ++ cs', e', hrun.append hrun', ?_⟩
      rw [hfail', hfail]
      push_cast
      omega

/-- The rebuilt task waits alone, with its counter at zero. -/
theorem rebuilt_waits {row : Row Body} {a : RouteArgs}
    (hpay : row.payload = marshal (routeData a)) (e : Engine Body) (clock : ℚ) :
    Waits row.id (routeData a) (e.rebuilt clock row).redis := by
  have hdoc : IsDoc row.payload (routeData a) := by
    rw [hpay]
    exact TaskCodec.marshal_isDoc _ (routeData_fits a)
  have htask := Engine.rebuilt_task e clock row
  rw [Engine.rebuilt_redis] at htask ⊢
  cases hs : materializeScore clock row with
  | none =>
    rw [hs] at htask
    exact ⟨rfl, ⟨_, htask, hdoc⟩, .inl rfl⟩
  | some s =>
    rw [hs] at htask
    exact ⟨rfl, ⟨_, htask, hdoc⟩, .inr ⟨rfl, s, put_self _ _ _⟩⟩

/-! ## When the rebuilt task is the old one -/

/-- The rebuilt record is the one Redis had exactly if the counters agree. -/
theorem rebuilt_record_iff {row : Row Body} {a : RouteArgs} {b : Body} {n : ℕ}
    (hpay : row.payload = marshal (routeData a))
    (hdoc : IsDoc b { routeData a with attempts := (n : ℤ) }) (e : Engine Body) (clock : ℚ) :
    (∃ b', (e.rebuilt clock row).redis.task row.id = some b' ∧ unmarshal b' = unmarshal b) ↔
      n = 0 := by
  have hgo : unmarshal row.payload = some (routeData a) := by
    rw [hpay, (TaskCodec.marshal_isDoc _ (routeData_fits a)).go, if_pos (routeData_fits a)]
  rw [Engine.rebuilt_task]
  constructor
  · rintro ⟨b', hb', heq⟩
    obtain rfl := Option.some.inj hb'
    rw [hgo, hdoc.go] at heq
    split at heq
    · have hatt : (0 : ℤ) = (n : ℤ) :=
        congrArg TaskMetaData.attempts (Option.some.inj heq)
      exact_mod_cast hatt.symm
    · cases heq
  · rintro rfl
    refine ⟨_, rfl, ?_⟩
    rw [hgo, hdoc.go]
    exact (if_pos (routeData_fits a)).symm

/-- **Rebuilding.** In every state of every run, for every row whose body is in Redis:
rebuilding the row after a wipe gives the body Redis had and keeps the budget, if and only
if the task has not failed since its body was last written whole and, when it has a budget,
has not failed at all. -/
theorem rebuild_exact_iff_unfailed {acts : List Act} {w : World Body} {row : Row Body} {b : Body}
    (hrun : WorldRun (fun _ _ => True) World.init acts w) (hrow : row ∈ w.journal)
    (hbody : w.engine.redis.task row.id = some b) (clock : ℚ) :
    Rebuilds w.engine clock row b ↔
      sinceWrite row.id w.engine.log = 0 ∧
        ∀ t, unmarshal row.payload = some t → 0 < t.maxRetries → w.engine.failures row.id = 0 := by
  have hrec : Recorded w := Recorded.init.run hrun
  obtain ⟨a, ha, hpay⟩ := hrec.rows row hrow
  obtain ⟨a', ha', hdoc⟩ := hrec.bodies row.id b hbody
  obtain rfl : a = a' := Option.some.inj (ha.symm.trans ha')
  have hid : a.id = row.id := hrec.ids row.id a ha
  have hgo : unmarshal row.payload = some (routeData a) := by
    rw [hpay, (TaskCodec.marshal_isDoc _ (routeData_fits a)).go, if_pos (routeData_fits a)]
  have hrecord := rebuilt_record_iff hpay hdoc w.engine clock
  constructor
  · intro h
    refine ⟨hrecord.mp h.record, fun t ht hpos => ?_⟩
    obtain rfl : routeData a = t := Option.some.inj (hgo.symm.trans ht)
    -- the workers can use up the whole budget of the rebuilt body
    obtain ⟨n, hn⟩ := Int.eq_ofNat_of_zero_le hpos.le
    obtain ⟨cs, e', hcs, hfail⟩ := (rebuilt_waits hpay w.engine clock).exhaust n
      (hn.trans (Int.zero_add _).symm)
    have hle := h.budget _ hgo hpos cs e' hcs
    rw [hfail, Engine.rebuilt_failures, hn] at hle
    have hnonneg : 0 ≤ w.engine.failures row.id := Int.natCast_nonneg _
    omega
  · rintro ⟨hsince, hzero⟩
    refine ⟨hrecord.mpr hsince, fun t ht hpos cs e' hcs => ?_⟩
    have hnone := hzero t ht hpos
    obtain rfl : routeData a = t := Option.some.inj (hgo.symm.trans ht)
    have hle := rebuilt_budget hid hpay hpos hcs
    rw [hnone, Int.zero_add] at hle
    exact hle

end

/-- A task that was enqueued and claimed. -/
def claimedOnce : List Act :=
  [.routeStart sampleArgs 100 100, .routeSet "job", .routePush "job", .routeDone "job",
    .claim 1 ["L1"] 130, .process 1]

/-- It can be rebuilt. -/
theorem rebuild_exact_iff_unfailed_claimed :
    ∃ w : World JsonBody, WorldRun (fun _ _ => True) World.init claimedOnce w ∧
      ∃ row ∈ w.journal, ∃ b, row.id = "job" ∧ row.state = .processing ∧
        w.engine.redis.task row.id = some b ∧ Rebuilds w.engine 105 row b := by
  have hend : (runList World.step (World.init : World JsonBody) claimedOnce).any (fun w =>
      decide (sinceWrite "job" w.engine.log = 0 ∧ w.engine.failures "job" = 0) &&
        w.journal.any fun row => decide (row.id = "job" ∧ row.state = .processing ∧
          (w.engine.redis.task row.id).isSome)) = true := by
    decide +kernel
  obtain ⟨w, hrun, hp⟩ := Run.exists_of_any (fun _ _ _ => trivial) hend
  rw [Bool.and_eq_true, List.any_eq_true] at hp
  obtain ⟨hlog, row, hrow, hr⟩ := hp
  obtain ⟨hsince, hfail⟩ := of_decide_eq_true hlog
  obtain ⟨hid, hstate, hsome⟩ := of_decide_eq_true hr
  obtain ⟨b, hb⟩ := Option.isSome_iff_exists.mp hsome
  rw [← hid] at hsince hfail
  exact ⟨w, hrun, row, hrow, b, hid, hstate, hb,
    (rebuild_exact_iff_unfailed hrun hrow hb 105).mpr ⟨hsince, fun _ _ _ => hfail⟩⟩

/-! ## A wipe after a failure -/

/-- The task fails once, and the retry is reported. -/
def failedOnce : List Act :=
  [.routeStart sampleArgs 100 100, .routeSet "job", .routePush "job", .routeDone "job",
    .claim 1 ["L1"] 130, .process 1, .handlerFail 1 110 1 60, .readReport 1, .writeReport 1 111,
    .ack 1]

/-- Redis loses everything, a sweep rebuilds the task, and it fails twice more. -/
def failedAfterWipe : List Act :=
  [.wipe, .readPage 0, .materializeRow 0 120, .clearRow 0, .finishPage 0, .promote "job" 120,
    .claim 1 ["L2"] 150, .process 1, .handlerFail 1 121 1 60, .readReport 1, .writeReport 1 122,
    .ack 1, .promote "job" 122, .claim 1 ["L3"] 160, .process 1, .handlerFail 1 123 1 60]

/-- The agent holds no claim. -/
def AgentPc.isIdle {Body : Type} : AgentPc Body → Bool
  | .idle => true
  | _ => false

theorem AgentPc.eq_idle {Body : Type} {pc : AgentPc Body} (h : pc.isIdle = true) :
    pc = .idle := by
  cases pc with
  | idle => rfl
  | _ => cases h

/-- **The rebuilt body forgets.** Every worker is idle, the row of the task is not
terminal, and rebuilding it gives a body without the failed attempt; after a wipe the
task, which has two attempts, fails three times. -/
theorem rebuild_forgets_failures :
    ∃ w w' : World JsonBody, WorldRun (fun _ _ => True) World.init failedOnce w ∧
      (∀ j, w.agents j = .idle) ∧
      (∃ row ∈ w.journal, ∃ b, row.id = "job" ∧ row.state.terminal = false ∧
        w.engine.redis.task row.id = some b ∧ ∀ clock, ¬ Rebuilds w.engine clock row b) ∧
      WorldRun (fun _ _ => True) w failedAfterWipe w' ∧
      sampleArgs.maxRetries.toInt = 2 ∧ w'.engine.failures "job" = 3 := by
  have hend : (runList World.step (World.init : World JsonBody) failedOnce).any (fun w =>
      ((w.agents 1).isIdle && w.journal.any fun row =>
        decide (row.id = "job" ∧ row.state.terminal = false ∧
          (w.engine.redis.task row.id).isSome ∧
          unmarshal row.payload ≠ (w.engine.redis.task row.id).bind unmarshal)) &&
        (runList World.step w failedAfterWipe).any fun w' =>
          decide (w'.engine.failures "job" = 3)) = true := by
    decide +kernel
  obtain ⟨w, hrun, hp⟩ := Run.exists_of_any (fun _ _ _ => trivial) hend
  rw [Bool.and_eq_true, Bool.and_eq_true, List.any_eq_true] at hp
  obtain ⟨⟨hidle, row, hrow, hr⟩, hlater⟩ := hp
  obtain ⟨hid, hopen, hsome, hdiff⟩ := of_decide_eq_true hr
  obtain ⟨b, hb⟩ := Option.isSome_iff_exists.mp hsome
  obtain ⟨w', hrun', hp'⟩ := Run.exists_of_any (fun _ _ _ => trivial) hlater
  refine ⟨w, w', hrun, ?_, ⟨row, hrow, b, hid, hopen, hb, ?_⟩, hrun', by decide,
    of_decide_eq_true hp'⟩
  · intro j
    by_cases hj : j = 1
    · subst hj
      exact AgentPc.eq_idle hidle
    · refine World.agents_run hrun ?_
      simp [failedOnce, Act.agent, Ne.symm hj]
  · rintro clock ⟨⟨b', hb', heq⟩, -⟩
    rw [Engine.rebuilt_task] at hb'
    obtain rfl := Option.some.inj hb'
    rw [hb] at hdiff
    exact hdiff heq

end ForgeQueue
