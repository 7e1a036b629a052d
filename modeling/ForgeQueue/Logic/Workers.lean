import ForgeQueue.Logic.Journaled
import ForgeQueue.Logic.Lifecycle

/-!
# The journal without sweeps

Gateway calls, workers, recovery and promotion loops, each with its journal writes; no
sweep and no wipe. What these processes send to Redis obeys the gateway's protocol, so
the server of such a world refines the leased-job model, and a task that is over (it was
acknowledged or dead-lettered) is never touched again.
-/

namespace ForgeQueue

open Base

section Over

variable {Body : Type} [TaskCodec Body]

/-- No effect of the core engine is about a task that is over. -/
theorem Refines.not_subject {r r' : Redis Body} {log : List Event} {ev : Event} {id : String}
    (h : Refines r log) (hover : (jobOf log id).Over) (hok : CoreOk log ev)
    (heff : Effect r ev r') : ev.subject ≠ some id := by
  have hborn : ∃ a, .enqueued a ∈ log ∧ a.id = id := by
    refine (h.born id).mp ?_
    rcases hover with hp | hp <;> rw [hp] <;> nofun
  have hplace : ∀ p, (jobOf log id).place = p → p = .finished ∨ p = .buried := by
    intro p hp
    rcases hover with hp' | hp'
    · exact .inl (hp.symm.trans hp')
    · exact .inr (hp.symm.trans hp')
  intro hsub
  cases heff with
  | bodySet a =>
    obtain rfl : a.id = id := Option.some.inj hsub
    obtain ⟨a', henq, hid⟩ := hborn
    exact hok a' (h.ordered a' henq) hid
  | enqueued a clock =>
    obtain rfl : a.id = id := Option.some.inj hsub
    obtain ⟨a', henq, hid⟩ := hborn
    exact hok.2 a' henq hid
  | paused on => cases hsub
  | claimed t ready l e hp hr =>
    obtain rfl : t = id := Option.some.inj hsub
    have hready := (h.holds t).place_ready (by rw [hr]; exact List.mem_cons_self)
    rcases hplace _ hready with hp | hp <;> cases hp
  | beat t l e hl =>
    obtain rfl : t = id := Option.some.inj hsub
    rcases hplace _ ((h.holds t).place_leased hl) with hp | hp <;> cases hp
  | acked t l hl =>
    obtain rfl : t = id := Option.some.inj hsub
    rcases hplace _ ((h.holds t).place_leased hl) with hp | hp <;> cases hp
  | failed t l now base cap hne hl =>
    obtain rfl : t = id := Option.some.inj hsub
    rcases hplace _ ((h.holds t).place_leased hl) with hp | hp <;> cases hp
  | reclaimed t e now base cap he hle =>
    obtain rfl : t = id := Option.some.inj hsub
    obtain ⟨l, hl⟩ := (h.holds t).inflight.mp (by rw [he]; rfl)
    rcases hplace _ hl with hp | hp <;> cases hp
  | promoted t score now hs hle =>
    obtain rfl : t = id := Option.some.inj hsub
    rcases hplace _ ((h.holds t).place_waiting hs) with hp | hp <;> cases hp
  | materialized _ _ _ _ => exact hok.elim
  | requeued _ => exact hok.elim
  | deleted _ => exact hok.elim
  | wiped => exact hok.elim

/-- A trace of the core engine leaves a task that is over as it is. -/
theorem Trace.stays_over {id : String} {r r' : Redis Body} {evs : List Event} (h : Trace r evs r') :
    ∀ log, Allowed CoreOk log evs → Refines r log → (jobOf log id).Over →
      (∀ ev ∈ evs, ev.subject ≠ some id) ∧ r'.task id = r.task id ∧
        jobOf (evs.reverse ++ log) id = jobOf log id := by
  induction h with
  | nil => exact fun log _ _ _ => ⟨nofun, rfl, rfl⟩
  | @cons r ev r₁ evs r' heff _ ih =>
    intro log hal href hover
    have hne := href.not_subject hover hal.1 heff
    have hjob : jobOf (ev :: log) id = jobOf log id := by
      rw [jobOf_cons, advance_of_ne hne]
    have hw : ev ≠ .wiped := by
      rintro rfl
      exact hal.1
    obtain ⟨hrest, htask, hjob'⟩ :=
      ih (ev :: log) hal.2 (href.effect hal.1 heff) (by rw [hjob]; exact hover)
    refine ⟨?_, ?_, ?_⟩
    · intro x hx
      rcases List.mem_cons.mp hx with rfl | hx
      · exact hne
      · exact hrest x hx
    · rw [htask, (heff.sameAt hne hw).task]
    · rw [List.reverse_cons, List.append_assoc]
      exact hjob'.trans hjob

/-- A dead-lettered task is buried. -/
def Interred (log : List Event) : Prop := ∀ id, DeadLettered log id → (jobOf log id).place = .buried

/-- **Step.** -/
theorem Interred.effect {r r' : Redis Body} {log : List Event} {ev : Event}
    (href : Refines r log) (hok : CoreOk log ev) (heff : Effect r ev r') (h : Interred log) :
    Interred (ev :: log) := by
  intro id hdead
  by_cases hold : DeadLettered log id
  · have hp := h id hold
    rw [jobOf_cons, advance_of_ne (href.not_subject (.inr hp) hok heff)]
    exact hp
  · rcases hdead with ⟨l, hl⟩ | ⟨l, hl⟩
    · rcases List.mem_cons.mp hl with rfl | hmem
      · simp [jobOf_cons, advance, Job.fail]
      · exact absurd (.inl ⟨l, hmem⟩) hold
    · rcases List.mem_cons.mp hl with rfl | hmem
      · simp [jobOf_cons, advance, Job.fail]
      · exact absurd (.inr ⟨l, hmem⟩) hold

end Over

/-! ## The world's commands are core commands -/

section Calls

variable {Body : Type}

/-- No sweep and no wipe: what is left are the gateway, the workers, recovery, promotion
and the heartbeats. -/
def NoSweep (_ : World Body) : Act → Prop
  | .readPage _ | .materializeRow .. | .clearRow _ | .finishPage _ | .reconcilerCrash _
  | .wipe => False
  | _ => True

/-- The gateway calls and the history agree, and every call has its row. -/
structure CallsTrack (calls : String → Option RouteCall) (ids : List String)
    (log : List Event) : Prop where
  args : ∀ id c, calls id = some c → c.args.id = id
  row : ∀ id c, calls id = some c → id ∈ ids
  body : ∀ a, .bodySet a ∈ log → ∃ c, calls a.id = some c ∧ c.pc ≠ .journaled
  push : ∀ a, .enqueued a ∈ log → ∃ c, calls a.id = some c ∧ c.pc ≠ .journaled ∧ c.pc ≠ .bodySet
  pending : ∀ id c, calls id = some c → c.pc = .bodySet → .bodySet c.args ∈ log

/-- Other events change nothing. -/
theorem CallsTrack.append {calls : String → Option RouteCall} {ids : List String}
    {log evs : List Event} (h : CallsTrack calls ids log)
    (hbody : ∀ a, .bodySet a ∉ evs) (hpush : ∀ a, .enqueued a ∉ evs) :
    CallsTrack calls ids (evs ++ log) where
  args := h.args
  row := h.row
  body a ha := h.body a ((List.mem_append.mp ha).resolve_left (hbody a))
  push a ha := h.push a ((List.mem_append.mp ha).resolve_left (hpush a))
  pending id c hc hpc := List.mem_append_right _ (h.pending id c hc hpc)

/-- A call moves on. -/
theorem CallsTrack.setCall {calls : String → Option RouteCall} {ids : List String}
    {log : List Event} (h : CallsTrack calls ids log) {id : String} {c : RouteCall}
    (hc : calls id = some c) {pc : RoutePc} (evs : List Event)
    (hbody : ∀ a, .bodySet a ∈ evs → a.id = id)
    (hpush : ∀ a, .enqueued a ∈ evs → a.id = id ∧ pc ≠ .bodySet)
    (hlater : pc ≠ .journaled) (hpushed : pc = .bodySet → c.pc = .journaled)
    (hpending : pc = .bodySet → .bodySet c.args ∈ evs) :
    CallsTrack (put calls c.args.id { c with pc := pc }) ids (evs ++ log) where
  args x c' hc' := by
    rcases put_eq_some.mp hc' with ⟨rfl, rfl⟩ | ⟨-, hc'⟩
    · rfl
    · exact h.args x c' hc'
  row x c' hc' := by
    rcases put_eq_some.mp hc' with ⟨rfl, rfl⟩ | ⟨-, hc'⟩
    · rw [h.args id c hc]
      exact h.row id c hc
    · exact h.row x c' hc'
  body a ha := by
    rw [h.args id c hc]
    by_cases hid : a.id = id
    · exact ⟨_, by rw [hid]; exact put_self _ _ _, hlater⟩
    · rw [put_of_ne _ _ hid]
      exact h.body a ((List.mem_append.mp ha).resolve_left fun hev => hid (hbody a hev))
  push a ha := by
    rw [h.args id c hc]
    by_cases hid : a.id = id
    · refine ⟨_, by rw [hid]; exact put_self _ _ _, hlater, ?_⟩
      intro hpc
      rcases List.mem_append.mp ha with hev | hold
      · exact (hpush a hev).2 hpc
      · obtain ⟨c', hc', hne, -⟩ := h.push a hold
        rw [hid, hc] at hc'
        obtain rfl := Option.some.inj hc'
        exact hne (hpushed hpc)
    · rw [put_of_ne _ _ hid]
      exact h.push a ((List.mem_append.mp ha).resolve_left fun hev => hid (hpush a hev).1)
  pending x c' hc' hpc := by
    rcases put_eq_some.mp hc' with ⟨rfl, rfl⟩ | ⟨-, hc'⟩
    · exact List.mem_append_left _ (hpending hpc)
    · exact List.mem_append_right _ (h.pending x c' hc' hpc)

end Calls

/-! ## The invariant -/

section Tracked

variable {Body : Type} [TaskCodec Body]

/-- The server refines the job model, calls and reports are backed by the history. -/
structure Tracked (w : World Body) : Prop where
  refines : Refines w.engine.redis w.engine.log
  interred : Interred w.engine.log
  calls : CallsTrack w.calls (w.journal.map Row.id) w.engine.log
  agents : ∀ i, AgentOk w.engine.log (w.agents i)

theorem Tracked.init : Tracked (World.init : World Body) where
  refines := .init
  interred _ h := by rcases h with ⟨l, h⟩ | ⟨l, h⟩ <;> cases h
  calls := ⟨nofun, nofun, nofun, nofun, nofun⟩
  agents _ := trivial

/-- A core command keeps the server's half. -/
theorem core_exec {e : Engine Body} {c : Call Body} (hcore : CoreCall e c)
    (href : Refines e.redis e.log) (hint : Interred e.log) :
    Refines (e.exec c).redis (e.exec c).log ∧ Interred (e.exec c).log := by
  have hstep : ∀ (r : Redis Body) log ev r', CoreOk log ev → Effect r ev r' →
      Refines r log ∧ Interred log → Refines r' (ev :: log) ∧ Interred (ev :: log) :=
    fun _ _ _ _ hok heff h => ⟨h.1.effect hok heff, h.2.effect h.1 hok heff⟩
  exact (Redis.after_trace e.redis c.now c.op).invariant hstep e.log hcore.allowed ⟨href, hint⟩

/-- The gateway writes a body once. -/
theorem Tracked.core_routeBody {w : World Body} (h : Tracked w) {id : String} {c : RouteCall}
    (hc : w.calls id = some c) (hpc : c.pc = .journaled) (now : ℚ) :
    CoreCall w.engine ⟨now, .routeBody c.args⟩ := by
  intro a ha heq
  obtain ⟨c', hc', hne⟩ := h.calls.body a ha
  rw [heq, h.calls.args id c hc, hc] at hc'
  obtain rfl := Option.some.inj hc'
  exact hne hpc

/-- The gateway writes the queue entry after the body, once. -/
theorem Tracked.core_routePush {w : World Body} (h : Tracked w) {id : String} {c : RouteCall}
    (hc : w.calls id = some c) (hpc : c.pc = .bodySet) (now : ℚ) :
    CoreCall w.engine ⟨now, .routePush c.args c.clock⟩ := by
  refine ⟨h.calls.pending id c hc hpc, fun a ha heq => ?_⟩
  obtain ⟨c', hc', -, hne⟩ := h.calls.push a ha
  rw [heq, h.calls.args id c hc, hc] at hc'
  obtain rfl := Option.some.inj hc'
  exact hne hpc

/-- Whatever a process sends is a core command. -/
theorem Tracked.core {w : World Body} (h : Tracked w) {act : Act} (hok : NoSweep w act)
    {op : Op Body} (hiss : Issues w act op) (now : ℚ) : CoreCall w.engine ⟨now, op⟩ := by
  cases act with
  | routeSet id =>
    obtain ⟨c, hc, hpc, rfl⟩ := hiss
    exact h.core_routeBody hc hpc now
  | routePush id =>
    obtain ⟨c, hc, hpc, rfl⟩ := hiss
    exact h.core_routePush hc hpc now
  | claim i leaseIDs expiry =>
    obtain rfl : op = _ := hiss
    trivial
  | handlerFail i now base cap =>
    obtain ⟨t, l, rfl⟩ := hiss
    trivial
  | recover i taskID now base cap =>
    obtain rfl : op = _ := hiss
    trivial
  | ack i =>
    obtain ⟨acks, rfl⟩ := hiss
    trivial
  | heartbeat taskID leaseID now d =>
    obtain rfl : op = _ := hiss
    trivial
  | promote taskID now =>
    obtain rfl : op = _ := hiss
    trivial
  | materializeRow k clock => exact hok.elim
  | wipe => exact hok.elim
  | _ => exact hiss.elim

/-- A command that is none of the gateway's. -/
theorem Tracked.exec {w : World Body} (h : Tracked w) (now : ℚ) (op : Op Body)
    (hcore : CoreCall w.engine ⟨now, op⟩)
    (hbody : ∀ a, op ≠ .routeBody a) (hpush : ∀ a clock, op ≠ .routePush a clock) :
    Tracked (w.exec now op) := by
  obtain ⟨href, hint⟩ := core_exec hcore h.refines h.interred
  refine ⟨href, hint, h.calls.append ?_ ?_, fun i => (h.agents i).append _⟩
  · intro a ha
    exact hbody a (Op.emits_source (Redis.emits_of_mem (List.mem_reverse.mp ha)))
  · intro a ha
    obtain ⟨clock, hop⟩ := Op.emits_source (Redis.emits_of_mem (List.mem_reverse.mp ha))
    exact hpush a clock hop

theorem Tracked.setAgent {w : World Body} (h : Tracked w) {i : ℕ} {pc : AgentPc Body}
    (hpc : AgentOk w.engine.log pc) : Tracked (w.setAgent i pc) :=
  ⟨h.refines, h.interred, h.calls, setAgent_forall (P := AgentOk w.engine.log) h.agents hpc⟩

/-- An `UPDATE`. -/
theorem Tracked.update {w : World Body} (h : Tracked w) {f : Row Body → Row Body}
    (hf : Keeps f) (id : String) :
    Tracked { w with journal := journalUpdate id f w.journal } := by
  have hids : (journalUpdate id f w.journal).map Row.id = w.journal.map Row.id := by
    rw [map_id_eq, journalUpdate_keys hf, ← map_id_eq]
  refine ⟨h.refines, h.interred, ?_, h.agents⟩
  show CallsTrack w.calls ((journalUpdate id f w.journal).map Row.id) w.engine.log
  rw [hids]
  exact h.calls

/-- **Step.** -/
theorem Tracked.step {w w' : World Body} {act : Act} (h : Tracked w) (hok : NoSweep w act)
    (hst : w.step act = some w') : Tracked w' := by
  cases World.moves hst with
  | @routeStart a clock pgNow hnew =>
    have hkeep : ∀ x c, w.calls x = some c →
        put w.calls a.id ⟨a, clock, .journaled⟩ x = some c := by
      intro x c hc
      rw [put_of_ne]
      · exact hc
      · rintro rfl
        rw [hnew] at hc
        cases hc
    refine ⟨h.refines, h.interred, ⟨?_, ?_, ?_, ?_, ?_⟩, h.agents⟩
    · intro x c hc
      rcases put_eq_some.mp hc with ⟨rfl, rfl⟩ | ⟨-, hc⟩
      · rfl
      · exact h.calls.args x c hc
    · intro x c hc
      refine mem_journalEnqueue_ids _ _ _ ?_
      rcases put_eq_some.mp hc with ⟨rfl, -⟩ | ⟨-, hc⟩
      · exact .inl rfl
      · exact .inr (h.calls.row x c hc)
    · intro a' ha'
      obtain ⟨c, hc, hpc⟩ := h.calls.body a' ha'
      exact ⟨c, hkeep _ c hc, hpc⟩
    · intro a' ha'
      obtain ⟨c, hc, hpc⟩ := h.calls.push a' ha'
      exact ⟨c, hkeep _ c hc, hpc⟩
    · intro x c hc hpc
      rcases put_eq_some.mp hc with ⟨rfl, rfl⟩ | ⟨-, hc⟩
      · cases hpc
      · exact h.calls.pending x c hc hpc
  | @routeSet id c hc hpc =>
    have hid := h.calls.args id c hc
    obtain ⟨href, hint⟩ := core_exec (h.core_routeBody hc hpc 0) h.refines h.interred
    refine ⟨href, hint, ?_, fun i => (h.agents i).append _⟩
    refine h.calls.setCall hc [.bodySet c.args] ?_ ?_ nofun (fun _ => hpc) ?_
    · intro a ha
      obtain rfl : a = c.args := by simpa using ha
      exact hid
    · intro a ha
      simp at ha
    · intro _
      exact List.mem_singleton_self _
  | @routePush id c hc hpc =>
    have hid := h.calls.args id c hc
    obtain ⟨href, hint⟩ := core_exec (h.core_routePush hc hpc 0) h.refines h.interred
    refine ⟨href, hint, ?_, fun i => (h.agents i).append _⟩
    refine h.calls.setCall hc [.enqueued c.args] ?_ ?_ nofun nofun nofun
    · intro a ha
      simp at ha
    · intro a ha
      obtain rfl : a = c.args := by simpa using ha
      exact ⟨hid, nofun⟩
  | @routeDone id c hc hpc =>
    have hmat := h.update keeps_materialized c.args.id
    exact ⟨hmat.refines, hmat.interred,
      hmat.calls.setCall hc [] nofun nofun nofun nofun nofun, hmat.agents⟩
  | @routeCrash id c hc hpc =>
    exact ⟨h.refines, h.interred,
      h.calls.setCall hc [] nofun nofun nofun nofun nofun, h.agents⟩
  | claim hi =>
    refine (h.exec _ (.claimBatch _ _) trivial nofun nofun).setAgent ?_
    split <;> trivial
  | skip hi => exact h.setAgent trivial
  | process hi hb ht => exact (h.update (keeps_setState _ _ _) _).setAgent trivial
  | handlerOk hi => exact h.setAgent trivial
  | handlerFail hi =>
    refine (h.exec _ (.requeueOrDead _ _ _ _) trivial nofun nofun).setAgent ?_
    exact .afterRequeue deadLettered_of_requeueOrDead _ _
  | recover hi =>
    refine (h.exec _ (.requeueOrDead _ _ _ _) trivial nofun nofun).setAgent ?_
    exact .afterRequeue deadLettered_of_requeueOrDead _ _
  | noReport hi hb => exact h.setAgent trivial
  | @readReport i id dead _ _ _ hi hb =>
    have hpc := h.agents i
    rw [hi] at hpc
    exact h.setAgent hpc
  | @writeReport i id dead attempts _ _ due hi =>
    refine Tracked.setAgent ?_ trivial
    cases dead with
    | true => exact h.update (keeps_setState _ _ _) id
    | false => exact h.update (keeps_setState _ _ _) id
  | noAck hi => exact h.setAgent trivial
  | ack hi =>
    refine (h.exec _ (.ackBatch _) trivial nofun nofun).setAgent ?_
    exact fun id hid => acked_of_ackBatch hid
  | allSucceeded hi => exact h.setAgent trivial
  | @succeeded i id ids hi =>
    have hpc := h.agents i
    rw [hi] at hpc
    exact (h.update (keeps_setState _ _ _) id).setAgent
      fun x hx => hpc x (List.mem_cons_of_mem _ hx)
  | agentCrash => exact h.setAgent trivial
  | heartbeat => exact h.exec _ (.heartbeat _ _ _) trivial nofun nofun
  | promote => exact h.exec _ (.promoteTask _) trivial nofun nofun
  | readPage hk => exact hok.elim
  | materializeRow hk => exact hok.elim
  | clearRow hk => exact hok.elim
  | finishPage hk => exact hok.elim
  | reconcilerCrash => exact hok.elim
  | wipe => exact hok.elim

/-- **Run.** -/
theorem Tracked.run {w w' : World Body} {acts : List Act} (h : Tracked w)
    (hrun : WorldRun NoSweep w acts w') : Tracked w' :=
  hrun.invariant Tracked (fun _ _ _ hok hst hi => hi.step hok hst) h

/-! ## Tasks that are over -/

/-- No command is about a task that is over, and none changes it. -/
theorem Tracked.over_exec {w : World Body} (h : Tracked w) {id : String}
    (hover : (jobOf w.engine.log id).Over) {now : ℚ} {op : Op Body}
    (hcore : CoreCall w.engine ⟨now, op⟩) :
    (∀ ev ∈ w.engine.redis.events now op, ev.subject ≠ some id) ∧
      (w.engine.redis.after now op).task id = w.engine.redis.task id ∧
      jobOf ((w.engine.redis.events now op).reverse ++ w.engine.log) id =
        jobOf w.engine.log id :=
  (Redis.after_trace w.engine.redis now op).stays_over w.engine.log hcore.allowed h.refines hover

/-- A task that is over stays over, and its body stays as it is. -/
theorem Tracked.over_step {w w' : World Body} {act : Act} (h : Tracked w) (hok : NoSweep w act)
    (hst : w.step act = some w') {id : String} (hover : (jobOf w.engine.log id).Over) :
    (jobOf w'.engine.log id).Over ∧
      w'.engine.redis.task id = w.engine.redis.task id := by
  rcases World.engine_step hst with heq | ⟨now, op, hiss, heq⟩
  · rw [heq]
    exact ⟨hover, rfl⟩
  · obtain ⟨-, htask, hjob⟩ := h.over_exec hover (h.core hok hiss now)
    rw [heq]
    refine ⟨?_, htask⟩
    show (jobOf ((w.engine.redis.events now op).reverse ++ w.engine.log) id).Over
    rw [hjob]
    exact hover

/-- A task that is over has a row. -/
theorem Tracked.over_row {w : World Body} (h : Tracked w) {id : String}
    (hover : (jobOf w.engine.log id).Over) : (∃ c, w.calls id = some c) ∧
      ∃ row ∈ w.journal, row.id = id := by
  have hborn : (jobOf w.engine.log id).place ≠ .absent := by
    rcases hover with hp | hp <;> rw [hp] <;> nofun
  obtain ⟨a, henq, rfl⟩ := (h.refines.born id).mp hborn
  obtain ⟨c, hc, -⟩ := h.calls.push a henq
  exact ⟨⟨c, hc⟩, List.mem_map.mp (h.calls.row a.id c hc)⟩

/-- What is acknowledged or dead-lettered is over. -/
theorem Tracked.over_of_finished {w : World Body} (h : Tracked w) {id : String}
    (hfin : Finished w.engine.log id) : (jobOf w.engine.log id).Over := by
  rcases hfin with hack | hdead
  · exact .inl ((h.refines.acked id).mpr hack)
  · exact .inr (h.interred id hdead)

/-- Nothing claims a task that is over. -/
theorem Tracked.over_claim {w : World Body} (h : Tracked w) {id : String}
    (hover : (jobOf w.engine.log id).Over) {leaseIDs : List String} {expiry : ℚ}
    {k : TaskClaim Body} (hk : k ∈ (claimBatch leaseIDs expiry w.engine.redis).2) :
    k.taskID ≠ id := by
  rintro rfl
  have hcore : CoreCall w.engine ⟨0, .claimBatch leaseIDs expiry⟩ := trivial
  exact (h.over_exec hover hcore).1 _ (List.mem_map_of_mem hk) rfl

/-- Nothing retries a task that is over. -/
theorem Tracked.over_retry {w : World Body} (h : Tracked w) {id : String}
    (hover : (jobOf w.engine.log id).Over) {now base cap : ℚ} {leaseID : String} :
    (requeueOrDead now base cap id leaseID w.engine.redis).2 ≠ some .scheduled := by
  intro hs
  unfold requeueOrDead at hs
  cases hg : requeueGuard now id leaseID w.engine.redis with
  | some status =>
    rw [hg] at hs
    exact (requeueGuard_rejects hg).2 (Option.some.inj hs)
  | none =>
    obtain ⟨l, hl⟩ := h.refines.guard_leased hg
    rcases hover with hp | hp <;> rw [hl] at hp <;> cases hp

end Tracked

end ForgeQueue
