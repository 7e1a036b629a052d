import ForgeQueue.Base.Ledger
import ForgeQueue.Logic.Requests
import ForgeQueue.Model.JsonBody

/-!
# A scheduled entry is promoted once

Two paths lead from the scheduled set to the ready list. `promoteTask` looks and moves in
one script. `PromoteDelayed` looks with `ZSCORE` and moves in a transaction that does not
look again, so it pushes the task whether or not the entry is still there.

The moves of a task are read off the store: it is supplied when an entry of the scheduled
set appears, used when it is pushed onto the ready list, voided when a `deleteTask`
transaction runs.
-/

namespace ForgeQueue

open Base

/-! ## The parties -/

section

variable {Body : Type}

/-- Commands that push the task onto the ready list without looking at the scheduled set,
the operator's transactions and a wipe are left out: RouteTask's immediate enqueue, and
materialization without a due time. -/
def Op.Party (id : String) : Op Body → Prop
  | .routePush a _ => a.id = id → 0 < a.delaySeconds
  | .materialize t score _ => t = id → score.isSome
  | .requeueTx _ | .deleteTx _ | .wipe => False
  | _ => True

/-- Every request takes part except a requeue of the task. -/
def Request.Party (id : String) : Request Body → Prop
  | .requeue _ t _ _ => t ≠ id
  | _ => True

/-- The parties of the statement: gateway, workers and recovery of any number of pools,
promotion loops, and any number of requests. -/
def Parties (id : String) (d : Desk Body) : DeskAct Body → Prop
  | .engine c => c.op.Party id
  | .receive _ _ => True
  | .next k => ∀ q, d.requests k = some q → q.Party id

/-- A `PromoteDelayed` transaction finds the task in the scheduled set. -/
def FindsScheduled (id : String) (d : Desk Body) : DeskAct Body → Prop
  | .next k => d.requests k = some (.promote id .commit) → (d.redis.scheduled id).isSome
  | _ => True

/-- The step is the transaction of a `deleteTask(id)` call. -/
def Desk.deletes (id : String) (d : Desk Body) : DeskAct Body → Bool
  | .next k =>
    match d.requests k with
    | some (.delete t .commit) => decide (t = id)
    | _ => false
  | _ => false

variable [BodyCodec Body] [DecidableEq Body]

/-- The move of a step, read off the states before and after it. -/
def Desk.move (id : String) (d : Desk Body) (act : DeskAct Body) : Option Move :=
  if d.deletes id act then some .voided
  else
    match d.step act with
    | none => none
    | some d' =>
      if d.redis.immediate.count id < d'.redis.immediate.count id then some .used
      else if (d.redis.scheduled id).isNone ∧ (d'.redis.scheduled id).isSome then some .supplied
      else none

/-- The moves of a run. An entry that is there at the start counts as supplied before. -/
def Desk.promotions (id : String) (d : Desk Body) (acts : List (DeskAct Body)) : List Move :=
  opening (d.redis.scheduled id).isSome ++ history Desk.step (Desk.move id) d acts

end

/-! ## Quiet changes -/

section

variable {Body : Type}

/-- The change pushes no copy of the task and removes no scheduled entry of it. -/
structure Quiet (id : String) (r r' : Redis Body) : Prop where
  ready : r'.immediate.count id ≤ r.immediate.count id
  scheduled : (r.scheduled id).isSome → (r'.scheduled id).isSome

theorem Quiet.of_eq {id : String} {r r' : Redis Body}
    (h1 : r'.immediate.count id = r.immediate.count id)
    (h2 : r'.scheduled id = r.scheduled id) : Quiet id r r' :=
  ⟨h1.le, by rw [h2]; exact fun h => h⟩

theorem Quiet.trans {id : String} {r r' r'' : Redis Body} (h : Quiet id r r')
    (h' : Quiet id r' r'') : Quiet id r r'' :=
  ⟨h'.ready.trans h.ready, fun hs => h'.scheduled (h.scheduled hs)⟩

/-- An entry of the scheduled set is written or overwritten. -/
theorem Quiet.zadd (id : String) (r : Redis Body) (t : String) (score : ℚ) :
    Quiet id r { r with scheduled := put r.scheduled t score } := by
  refine ⟨le_rfl, fun h => ?_⟩
  show (put r.scheduled t score id).isSome
  by_cases ht : id = t
  · rw [ht, put_self]; rfl
  · rw [put_of_ne _ _ ht]; exact h

/-- A due time for the task, or any enqueue of another one. -/
theorem Quiet.routePush {id t : String} {target : Option ℚ} (h : t = id → target.isSome)
    (r : Redis Body) : Quiet id r (routePush target t r) := by
  cases target with
  | some score => exact .zadd id r t score
  | none =>
    have hne : t ≠ id := by
      intro ht
      cases h ht
    exact .of_eq (List.count_cons_of_ne hne) rfl

variable [BodyCodec Body]

/-- The second half of a failed attempt schedules the task, or leaves it unscheduled. -/
theorem Quiet.retryOrBury (id : String) (now base cap : ℚ) (t : String) (r : Redis Body) :
    Quiet id r (retryOrBury now base cap t (r.release t)).1 := by
  have hf := retryOrBury_frame now base cap t (r.release t)
  refine ⟨by rw [hf.immediate]; rfl, fun h => ?_⟩
  rcases retryOrBury_scheduled now base cap t (r.release t) with heq | ⟨s, heq⟩
  · rw [heq]
    exact h
  · rw [heq]
    exact (Quiet.zadd id r t s).scheduled h

/-- No promotion of the task, no enqueue of it without a due time, no write of an
operator or a reconciler, no wipe. -/
def Event.QuietFor (id : String) : Event → Prop
  | .enqueued a => a.id = id → 0 < a.delaySeconds
  | .promoted t => t ≠ id
  | .materialized _ | .requeued _ | .deleted _ | .wiped => False
  | _ => True

theorem Quiet.effect {id : String} {r r' : Redis Body} {ev : Event} (h : Effect r ev r')
    (hparty : ev.QuietFor id) : Quiet id r r' := by
  cases h with
  | bodySet a => exact .of_eq rfl rfl
  | enqueued a clock =>
    refine .routePush (fun ht => ?_) r
    rw [routeTarget, if_pos (hparty ht)]
    rfl
  | paused on => exact .of_eq rfl rfl
  | claimed t ready l e _ hr =>
    refine ⟨?_, fun h => h⟩
    rw [hr]
    exact List.count_le_count_cons
  | beat t l e _ => exact .of_eq rfl rfl
  | acked t l _ => exact .of_eq rfl rfl
  | failed t l now base cap _ _ => exact .retryOrBury id now base cap t r
  | reclaimed t e now base cap _ _ => exact .retryOrBury id now base cap t r
  | promoted t score now _ _ =>
    exact .of_eq (List.count_cons_of_ne hparty) (del_of_ne _ (Ne.symm hparty))
  | materialized t target payload _ => exact hparty.elim
  | requeued t => exact hparty.elim
  | deleted t => exact hparty.elim
  | wiped => exact hparty.elim

omit [BodyCodec Body] in
/-- The events of the parties' commands. -/
theorem Op.Party.quietFor {id : String} {op : Op Body} {ev : Event} (hparty : op.Party id)
    (hpromote : op ≠ .promoteTask id) (hmat : ∀ t score payload, op ≠ .materialize t score payload)
    (h : op.emits ev) : ev.QuietFor id := by
  have hsource := Op.emits_source h
  cases ev with
  | enqueued a =>
    obtain ⟨clock, rfl⟩ := hsource
    exact hparty
  | promoted t =>
    obtain rfl : op = _ := hsource
    exact fun ht => hpromote (by rw [ht])
  | materialized t =>
    obtain ⟨score, payload, rfl⟩ := hsource
    exact absurd rfl (hmat t score payload)
  | requeued t =>
    obtain rfl : op = _ := hsource
    exact hparty.elim
  | deleted t =>
    obtain rfl : op = _ := hsource
    exact hparty.elim
  | wiped =>
    obtain rfl : op = _ := hsource
    exact hparty.elim
  | _ => trivial

omit [BodyCodec Body] in
/-- A materialization with a due time, or of another task. -/
theorem Quiet.materialize {id t : String} {score : Option ℚ} (h : t = id → score.isSome)
    (payload : Body) (r : Redis Body) : Quiet id r (materializeScript t score payload r).1 := by
  unfold materializeScript
  by_cases hlive : r.Live t
  · rw [if_pos hlive]
    exact .of_eq rfl rfl
  · rw [if_neg hlive]
    have hpush := Quiet.routePush h { r with task := put r.task t payload }
    cases score <;> exact ⟨hpush.ready, hpush.scheduled⟩

/-- Commands of the parties are quiet, promotions of the task apart. -/
theorem Quiet.op {id : String} {op : Op Body} (hparty : op.Party id)
    (hpromote : op ≠ .promoteTask id) (r : Redis Body) (now : ℚ) :
    Quiet id r (r.after now op) := by
  by_cases hmat : ∃ t score payload, op = .materialize t score payload
  · obtain ⟨t, score, payload, rfl⟩ := hmat
    exact .materialize hparty payload r
  · have hmat' : ∀ t score payload, op ≠ .materialize t score payload :=
      fun t score payload h => hmat ⟨t, score, payload, h⟩
    refine (r.after_trace now op).keeps (P := Quiet id r) ?_ (.of_eq rfl rfl)
    intro r₁ ev r₂ hev heff h
    exact h.trans (.effect heff (hparty.quietFor hpromote hmat' (Redis.emits_of_mem hev)))

omit [BodyCodec Body] in
/-- A promotion of the task by the script pushes it and removes its entry, or does
nothing. -/
theorem promoteTask_cases (now : ℚ) (id : String) (r : Redis Body) :
    (promoteTask now id r).1 = r ∨
      (r.scheduled id).isSome ∧ (promoteTask now id r).1 = promoteTx id r := by
  unfold promoteTask promoteTx
  cases hs : r.scheduled id with
  | none => exact .inl rfl
  | some score =>
    by_cases hlt : now < score
    · simp only [if_pos hlt]
      exact .inl trivial
    · simp only [if_neg hlt]
      exact .inr ⟨rfl, trivial⟩

variable [DecidableEq Body]

/-- Writes of requests are quiet that promote, delete or requeue another task. -/
theorem Quiet.write {id : String} {w : Write Body} (hrequeue : ∀ t, w = .requeueTx t → t ≠ id)
    (hdelete : ∀ t, w = .deleteTx t → t ≠ id) (hpromote : ∀ t, w = .promoteTx t → t ≠ id)
    (r : Redis Body) : Quiet id r (w.apply r) := by
  cases w with
  | nothing => exact .of_eq rfl rfl
  | lrem body => exact .of_eq rfl rfl
  | setBody t body => exact .of_eq rfl rfl
  | requeueTx t =>
    have hne := hrequeue t rfl
    exact .of_eq (List.count_cons_of_ne hne) (del_of_ne _ (Ne.symm hne))
  | deleteTx t =>
    have hne := hdelete t rfl
    exact .of_eq (List.count_filter (by simpa using Ne.symm hne)) (del_of_ne _ (Ne.symm hne))
  | purgeQueueTx ids => exact ⟨Nat.zero_le _, fun h => h⟩
  | purgeDLQTx bodies => exact .of_eq rfl rfl
  | promoteTx t =>
    have hne := hpromote t rfl
    exact .of_eq (List.count_cons_of_ne hne) (del_of_ne _ (Ne.symm hne))

/-! ## What a step of the parties does to the entry -/

/-- A step deletes the task, promotes it, or is quiet. A promotion finds the entry, unless
it is a `PromoteDelayed` transaction that comes too late. -/
inductive PartyStep (id : String) (d : Desk Body) (act : DeskAct Body) (d' : Desk Body) : Prop
  | deletes : d.deletes id act = true → FindsScheduled id d act →
      d'.redis = deleteTx id d.redis → PartyStep id d act d'
  | promotes : d.deletes id act = false → (FindsScheduled id d act ↔
      (d.redis.scheduled id).isSome) → d'.redis = promoteTx id d.redis → PartyStep id d act d'
  | quiet : d.deletes id act = false → FindsScheduled id d act →
      Quiet id d.redis d'.redis → PartyStep id d act d'

/-- A command of a request. -/
theorem PartyStep.of_request {id : String} {d : Desk Body} {k : ℕ} {q : Request Body}
    (hq : d.requests k = some q) (hparty : q.Party id) :
    PartyStep id d (.next k) ⟨q.write.apply d.redis, put d.requests k (q.step d.redis).2⟩ := by
  by_cases hdelete : q = .delete id .commit
  · subst hdelete
    refine .deletes ?_ ?_ rfl
    · simp [Desk.deletes, hq]
    · intro h
      rw [hq] at h
      cases h
  by_cases hpromote : q = .promote id .commit
  · subst hpromote
    refine .promotes ?_ ?_ rfl
    · simp [Desk.deletes, hq]
    · exact ⟨fun h => h hq, fun h _ => h⟩
  -- every other command leaves the entry and the ready copies alone
  refine .quiet ?_ ?_ ?_
  · simp only [Desk.deletes, hq]
    split
    · rename_i t heq
      obtain rfl := Option.some.inj heq
      exact decide_eq_false fun ht => hdelete (by rw [ht])
    · rfl
  · intro h
    exact absurd (Option.some.inj (hq.symm.trans h)) hpromote
  · have hsends := q.sends_write
    refine .write ?_ ?_ ?_ d.redis
    · rintro t ht rfl
      rw [ht] at hsends
      obtain ⟨noun, resetAttempts, written, rfl⟩ := hsends
      exact hparty rfl
    · rintro t ht rfl
      rw [ht] at hsends
      exact hdelete hsends
    · rintro t ht rfl
      rw [ht] at hsends
      exact hpromote hsends

/-- **Step.** What a step of the parties does. -/
theorem PartyStep.of_step {id : String} {d d' : Desk Body} {act : DeskAct Body}
    (hok : Parties id d act) (hst : d.step act = some d') : PartyStep id d act d' := by
  obtain ⟨c, rfl, rfl⟩ | ⟨k, demand, rfl, -, rfl⟩ | ⟨k, q, rfl, hq, -, rfl⟩ :=
    Desk.step_cases hst
  · by_cases hpromote : c.op = .promoteTask id
    · have hafter : d.redis.after c.now c.op = (promoteTask c.now id d.redis).1 := by
        rw [hpromote]
        rfl
      rcases promoteTask_cases c.now id d.redis with heq | ⟨hsome, heq⟩
      · exact .quiet rfl trivial (.of_eq (by rw [hafter, heq]) (by rw [hafter, heq]))
      · exact .promotes rfl ⟨fun _ => hsome, fun _ => trivial⟩ (hafter.trans heq)
    · exact .quiet rfl trivial (.op hok hpromote d.redis c.now)
  · exact .quiet rfl trivial (.of_eq rfl rfl)
  · rw [q.step_write]
    exact .of_request hq (hok q hq)

/-- The scheduled entry follows the moves, and a use finds it exactly when no
`PromoteDelayed` transaction comes too late. -/
theorem PartyStep.tracks {id : String} {d d' : Desk Body} {act : DeskAct Body}
    (hst : d.step act = some d') (h : PartyStep id d act d') :
    ((d'.redis.scheduled id).isSome ↔
      stockAfter (d.redis.scheduled id).isSome (d.move id act)) ∧
    (FindsScheduled id d act ↔
      (d.move id act = some .used → (d.redis.scheduled id).isSome)) := by
  cases h with
  | deletes hdel hfinds hr =>
    have hmove : d.move id act = some .voided := by simp [Desk.move, hdel]
    refine ⟨?_, ?_⟩
    · rw [hmove, hr]
      simp [stockAfter, deleteTx]
    · rw [hmove]
      exact ⟨fun _ => by simp, fun _ => hfinds⟩
  | promotes hdel hfinds hr =>
    have hmove : d.move id act = some .used := by
      simp [Desk.move, hdel, hst, hr, promoteTx]
    refine ⟨?_, ?_⟩
    · rw [hmove, hr]
      simp [stockAfter, promoteTx]
    · rw [hmove, hfinds]
      exact ⟨fun h _ => h, fun h => h rfl⟩
  | quiet hdel hfinds hquiet =>
    have hcount : ¬ d.redis.immediate.count id < d'.redis.immediate.count id :=
      not_lt.mpr hquiet.ready
    by_cases hnew : (d.redis.scheduled id).isNone ∧ (d'.redis.scheduled id).isSome
    · have hmove : d.move id act = some .supplied := by
        simp only [Desk.move, hdel, hst, if_neg hcount, if_pos hnew]
        rfl
      rw [hmove]
      exact ⟨⟨fun _ => trivial, fun _ => hnew.2⟩, fun _ => by simp, fun _ => hfinds⟩
    · have hmove : d.move id act = none := by
        simp only [Desk.move, hdel, hst, if_neg hcount, if_neg hnew]
        rfl
      rw [hmove]
      refine ⟨⟨fun hs => ?_, hquiet.scheduled⟩, fun _ => by simp, fun _ => hfinds⟩
      show (d.redis.scheduled id).isSome = true
      by_contra hno
      exact hnew ⟨by simpa using hno, hs⟩

/-- In every interleaving of the parties, each entry of the scheduled set leads to at most
one push and a deletion to none, exactly when every `PromoteDelayed` transaction still
finds the task in the scheduled set. -/
theorem promoted_once_iff_found {id : String} {d d' : Desk Body} {acts : List (DeskAct Body)}
    (hrun : DeskRun (Parties id) d acts d') :
    EachUseStems (d.promotions id acts) ↔
      DeskRun (fun s act => Parties id s act ∧ FindsScheduled id s act) d acts d' := by
  have htracks : ∀ (s : Desk Body) act s', Parties id s act → s.step act = some s' →
      ((s'.redis.scheduled id).isSome = true ↔
        stockAfter ((s.redis.scheduled id).isSome = true) (s.move id act)) :=
    fun s act s' hok hst => ((PartyStep.of_step hok hst).tracks hst).1
  refine (eachUseStems_iff htracks hrun (eachUseStems_opening _) (armed_opening _)).trans
    ⟨?_, ?_⟩
  · refine Run.mono fun s act s' hok hst => ?_
    exact ⟨hok.1, ((PartyStep.of_step hok.1 hst).tracks hst).2.mpr hok.2⟩
  · refine Run.mono fun s act s' hok hst => ?_
    exact ⟨hok.1, ((PartyStep.of_step hok.1 hst).tracks hst).2.mp hok.2⟩

end

/-! ## Late transactions -/

/-- The task of the evaluations, enqueued with a delay. -/
def delayedArgs : RouteArgs := { sampleArgs with delaySeconds := 60 }

/-- The job is waiting in the scheduled set. -/
def enqueueDelayed : List (DeskAct JsonBody) :=
  [.engine ⟨0, .routeBody delayedArgs⟩, .engine ⟨0, .routePush delayedArgs 0⟩]

/-- An operator promotes the job, a worker claims it, and its failed attempt is scheduled
for a retry that the script promotes. -/
def promotedTwiceSupplied : List (DeskAct JsonBody) :=
  enqueueDelayed ++ [.receive 0 (.promoteDelayed "job"), .next 0, .next 0,
    .engine ⟨1, .claimBatch ["L1"] 31⟩, .engine ⟨2, .requeueOrDead "job" "L1" 1 60⟩,
    .engine ⟨3, .promoteTask "job"⟩]

/-- Two pushes, each with its own entry. -/
theorem promoted_once_iff_found_retry :
    ∃ d : Desk JsonBody, DeskRun (Parties "job") Desk.init promotedTwiceSupplied d ∧
      Desk.init.promotions "job" promotedTwiceSupplied =
        [.supplied, .used, .supplied, .used] ∧
      EachUseStems (Desk.init.promotions "job" promotedTwiceSupplied) := by
  have hrun : ∃ d : Desk JsonBody,
      DeskRun (fun s act => Parties "job" s act ∧ FindsScheduled "job" s act) Desk.init
        promotedTwiceSupplied d := by
    refine ⟨_, .cons ⟨trivial, trivial⟩ rfl (.cons ⟨fun _ => by decide, trivial⟩ rfl
      (.cons ⟨trivial, trivial⟩ rfl (.cons ⟨?_, nofun⟩ rfl (.cons ⟨?_, fun _ => rfl⟩ rfl
      (.cons ⟨trivial, trivial⟩ rfl (.cons ⟨trivial, trivial⟩ rfl
      (.cons ⟨trivial, trivial⟩ rfl .nil)))))))⟩
    · rintro _ ⟨⟩
      trivial
    · rintro _ ⟨⟩
      trivial
  obtain ⟨d, hguarded⟩ := hrun
  have hrun : DeskRun (Parties "job") Desk.init promotedTwiceSupplied d :=
    hguarded.mono fun _ _ _ h _ => h.1
  exact ⟨d, hrun, by decide +kernel, (promoted_once_iff_found hrun).mpr hguarded⟩

/-- Both requests pass the check before either transaction runs. -/
def racingPromotions : List (DeskAct JsonBody) :=
  enqueueDelayed ++ [.receive 0 (.promoteDelayed "job"), .receive 1 (.promoteDelayed "job"),
    .next 0, .next 1, .next 0, .next 1]

/-- The task is deleted between the check and the transaction of a promotion. -/
def deletedBeforePush : List (DeskAct JsonBody) :=
  enqueueDelayed ++ [.receive 0 (.promoteDelayed "job"), .next 0,
    .receive 1 (.action (.cancelDelayed "job")), .next 1, .next 1, .next 0]

/-- **Twice, and after a deletion.** One entry is pushed twice, and a deleted task is
pushed without a body. -/
theorem promoteDelayed_pushes_twice :
    (∃ d : Desk JsonBody, DeskRun (Parties "job") Desk.init racingPromotions d ∧
      d.redis.immediate = ["job", "job"] ∧
      Desk.init.promotions "job" racingPromotions = [.supplied, .used, .used] ∧
      ¬ EachUseStems (Desk.init.promotions "job" racingPromotions)) ∧
    ∃ d : Desk JsonBody, DeskRun (Parties "job") Desk.init deletedBeforePush d ∧
      d.redis.immediate = ["job"] ∧ d.redis.task "job" = none ∧
      Desk.init.promotions "job" deletedBeforePush = [.supplied, .voided, .used] ∧
      ¬ EachUseStems (Desk.init.promotions "job" deletedBeforePush) := by
  refine ⟨?_, ?_⟩
  · have hmoves : Desk.init.promotions "job" racingPromotions = [.supplied, .used, .used] := by
      decide +kernel
    refine ⟨_, .cons trivial rfl (.cons (fun _ => by decide) rfl (.cons trivial rfl
      (.cons trivial rfl (.cons ?_ rfl (.cons ?_ rfl (.cons ?_ rfl (.cons ?_ rfl .nil))))))),
      rfl, hmoves, ?_⟩
    iterate 4
      · rintro _ ⟨⟩
        trivial
    rw [hmoves]
    intro hall
    have harmed : Armed ([.supplied] ++ [.used]) := hall [.supplied, .used] [] rfl
    rw [armed_snoc] at harmed
    simp at harmed
  · have hmoves : Desk.init.promotions "job" deletedBeforePush =
        [.supplied, .voided, .used] := by
      decide +kernel
    refine ⟨_, .cons trivial rfl (.cons (fun _ => by decide) rfl (.cons trivial rfl
      (.cons ?_ rfl (.cons trivial rfl (.cons ?_ rfl (.cons ?_ rfl (.cons ?_ rfl .nil))))))),
      rfl, rfl, hmoves, ?_⟩
    iterate 4
      · rintro _ ⟨⟩
        trivial
    rw [hmoves]
    intro hall
    have harmed : Armed ([.supplied] ++ [.voided]) := hall [.supplied, .voided] [] rfl
    rw [armed_snoc] at harmed
    simp at harmed

end ForgeQueue
