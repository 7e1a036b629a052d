import ForgeQueue.Logic.Counts
import ForgeQueue.Logic.Paths
import ForgeQueue.Model.Dashboard
import ForgeQueue.Model.JsonBody
import ForgeQueue.Theorems.Conservation

/-!
# The job page tells the truth

`readTaskFull` reads four keys one after the other while the engine runs on. The status it
reports need not be the status when the call ends, but it was the task's status at some
moment of the call, unless the task was acknowledged during the call.
-/

namespace ForgeQueue

open Base

/-- What the dashboard calls the place a task is in. A task whose second enqueue write is
still to come counts as pending, and there is no status for an acknowledged one. -/
def statusOf : Place String → Option JobStatus
  | .absent | .ready => some .pending
  | .leased _ => some .processing
  | .waiting => some .delayed
  | .buried => some .dlq
  | .finished => none

section

variable {Body : Type} [TaskCodec Body]

/-- A scheduled task that an event moves goes to the ready list. -/
theorem Refines.waiting_event {r r' : Redis Body} {log : List Event} {ev : Event}
    (h : Refines r log) (hok : CoreOk log ev) (heff : Effect r ev r') {id : String}
    (hp : (jobOf log id).place = .waiting) :
    (jobOf (ev :: log) id).place = .waiting ∨ (jobOf (ev :: log) id).place = .ready := by
  rcases h.job_move hok heff id with heq | hs
  · exact .inl (heq ▸ hp)
  · generalize jobOf (ev :: log) id = j' at hs
    cases hs with
    | create _ _ ha => simp [hp] at ha
    | grant _ hr => simp [hp] at hr
    | finish hl => simp [hp] at hl
    | fail hl => simp [hp] at hl
    | promote _ => exact .inr rfl

/-- The event of a claim or an acknowledgement. -/
def Event.isBatch : Event → Prop
  | .claimed _ _ _ | .acked _ _ => True
  | _ => False

/-- Claims and acknowledgements do not touch a scheduled task. -/
theorem Refines.waiting_batch {r r' : Redis Body} {log evs : List Event}
    (htr : Trace r evs r') (h : Refines r log) (hall : Allowed CoreOk log evs)
    (hb : ∀ ev ∈ evs, ev.isBatch) {id : String} (hp : (jobOf log id).place = .waiting) :
    (jobOf (evs.reverse ++ log) id).place = .waiting := by
  have hstep : ∀ (r : Redis Body) log ev r', CoreOk log ev ∧ ev.isBatch → Effect r ev r' →
      Refines r log ∧ (jobOf log id).place = .waiting →
      Refines r' (ev :: log) ∧ (jobOf (ev :: log) id).place = .waiting := by
    rintro r log ev r' ⟨hok, hbatch⟩ heff ⟨href, hw⟩
    refine ⟨href.effect hok heff, ?_⟩
    have hor := href.waiting_event hok heff hw
    rw [jobOf_cons] at hor ⊢
    cases ev with
    | claimed t l x =>
      by_cases ht : t = id
      · simp [advance, ht, Job.grant] at hor
      · simpa [advance, ht] using hw
    | acked t l =>
      by_cases ht : t = id
      · simp [advance, ht, Job.finish] at hor
      · simpa [advance, ht] using hw
    | _ => exact hbatch.elim
  exact (htr.invariant hstep log (hall.and hb) ⟨h, hp⟩).2

/-- Every other command reports one event at most. -/
theorem Redis.events_shape (r : Redis Body) (now : ℚ) (op : Op Body) :
    (∀ ev ∈ r.events now op, ev.isBatch) ∨ ∃ ev, r.events now op = [ev] := by
  cases op with
  | claimBatch leaseIDs expiry =>
    left
    intro ev hev
    obtain ⟨t, l, -, rfl⟩ := Redis.emits_of_mem hev
    trivial
  | ackBatch pairs =>
    left
    intro ev hev
    obtain ⟨t, l, rfl⟩ := Redis.emits_of_mem hev
    trivial
  | heartbeat t l d =>
    simp only [Redis.events]
    split <;> simp
  | requeueOrDead t l base cap =>
    simp only [Redis.events, requeueEvents]
    split
    · simp
    · split <;> simp
  | promoteTask t =>
    simp only [Redis.events]
    split <;> simp
  | materialize id score payload =>
    simp only [Redis.events]
    split <;> simp
  | _ => exact .inr ⟨_, rfl⟩

/-- **Step.** A call leaves a scheduled task scheduled or ready: nothing takes it further at
once. -/
theorem Refines.waiting_exec {e : Engine Body} (h : Refines e.redis e.log) {c : Call Body}
    (hc : CoreCall e c) {id : String} (hp : (jobOf e.log id).place = .waiting) :
    (jobOf (e.exec c).log id).place = .waiting ∨
      (jobOf (e.exec c).log id).place = .ready := by
  have htr := Redis.after_trace e.redis c.now c.op
  have hall := hc.allowed
  show (jobOf ((e.redis.events c.now c.op).reverse ++ e.log) id).place = _ ∨
    (jobOf ((e.redis.events c.now c.op).reverse ++ e.log) id).place = _
  rcases e.redis.events_shape c.now c.op with hbatch | ⟨ev, hev⟩
  · exact .inl (h.waiting_batch htr hall hbatch hp)
  · rw [hev] at htr hall ⊢
    cases htr with
    | cons heff _ => exact h.waiting_event hall.1 heff hp

/-- A task that is scheduled at one moment and not at a later one was ready in between. -/
theorem Refines.waiting_run {e e' : Engine Body} {cs : List (Call Body)}
    (h : Refines e.redis e.log) (hrun : EngineRun CoreCall e cs e') {id : String}
    (hp : (jobOf e.log id).place = .waiting) (hp' : (jobOf e'.log id).place ≠ .waiting) :
    ∃ before after m, cs = before ++ after ∧ EngineRun CoreCall e before m ∧
      EngineRun CoreCall m after e' ∧ (jobOf m.log id).place = .ready := by
  obtain ⟨before, c, after, s₁, s₂, rfl, hrun₁, hc, hst, h₁, h₂⟩ :=
    Run.origin (fun e => (jobOf e.log id).place ≠ .waiting) hrun (not_not.mpr hp) hp'
  have hcs : before ++ c :: after = (before ++ [c]) ++ after := by simp
  rw [hcs] at hrun
  obtain ⟨m, hm, hm'⟩ := hrun.split
  obtain rfl : m = s₂ :=
    (EngineRun.eq_execAll hm).trans (EngineRun.eq_execAll (hrun₁.snoc hc hst)).symm
  obtain rfl : s₁.exec c = m := Option.some.inj hst
  have href : Refines s₁.redis s₁.log :=
    EngineRun.invariant Refines (fun _ _ hok => hok.allowed)
      (fun _ _ _ _ hok heff hr => hr.effect hok heff) hrun₁ h
  exact ⟨before ++ [c], after, _, hcs, hm, hm',
    (href.waiting_exec hc (not_not.mp h₁)).resolve_left h₂⟩

omit [TaskCodec Body] in
theorem Holds.isDead_iff [BodyCodec Body] {r : Redis Body} {id : String} {j : Job String}
    (h : Holds r id j) : isDead id r = true ↔ j.place = .buried := by
  have hcount := h.dead
  unfold isDead
  rw [List.any_eq_true, ← List.countP_pos_iff, hcount]
  split <;> simp_all

omit [TaskCodec Body] in
/-- Read in one state, the status is the name of the task's place. -/
theorem Holds.readStatus [BodyCodec Body] {r : Redis Body} {id : String} {j : Job String}
    (h : Holds r id j) {s : JobStatus} (hs : statusOf j.place = some s) :
    readStatus id r r r = s := by
  have hinfl := h.inflight
  have hsched := h.scheduled
  have hdead := h.isDead_iff
  unfold ForgeQueue.readStatus
  cases hp : j.place <;> simp_all [statusOf]

omit [TaskCodec Body] in
/-- What a job page is made of: the body, and the status. -/
theorem readTaskFull_found [BodyCodec Body] {now : ℚ} {id : String}
    {r₀ r₁ r₂ r₃ : Redis Body} {job : JobView}
    (h : readTaskFull now id r₀ r₁ r₂ r₃ = .found job) :
    ∃ b tm, r₀.task id = some b ∧ apiUnmarshal b = some tm ∧
      job.attempts = tm.attempts ∧ job.maxAttempts = tm.maxRetries ∧
      job.status = readStatus id r₁ r₂ r₃ := by
  unfold readTaskFull at h
  split at h
  · cases h
  · rename_i b hb
    split at h
    · cases h
    · rename_i tm htm
      injection h with h
      subst h
      exact ⟨b, tm, hb, htm, rfl, rfl, rfl⟩

/-- The counters on the page are those of the history. -/
theorem Refines.page_counters {e : Engine Body} (h : Refines e.redis e.log)
    (hc : Counted e.log) {a : RouteArgs} (henq : .enqueued a ∈ e.log) {b : Body} {tm : ApiTask}
    (hb : e.redis.task a.id = some b) (htm : apiUnmarshal b = some tm) :
    tm.attempts = e.failures a.id ∧ tm.maxRetries = a.maxRetries.toInt := by
  have hborn : (jobOf e.log a.id).place ≠ .absent := (h.born a.id).mpr ⟨a, henq, rfl⟩
  have hfin : (jobOf e.log a.id).place ≠ .finished := by
    intro hf
    rw [(h.holds a.id).finished hf] at hb
    cases hb
  obtain ⟨b', t, hb', hdoc, -, hmax, hatt⟩ := (h.holds a.id).body hborn hfin
  obtain rfl : b' = b := Option.some.inj (hb'.symm.trans hb)
  have hapi := hdoc.api
  rw [htm] at hapi
  split at hapi
  · obtain rfl := Option.some.inj hapi
    refine ⟨?_, hmax.trans (hc.budget a henq)⟩
    show t.attempts = _
    rw [hatt, hc.failures a.id]
    rfl
  · cases hapi

/-- A moment of the call with the reported status. -/
def Moment (e : Engine Body) (cs : List (Call Body)) (e' : Engine Body) (id : String)
    (status : JobStatus) : Prop :=
  ∃ before after m, cs = before ++ after ∧ EngineRun CoreCall e before m ∧
    EngineRun CoreCall m after e' ∧ (m.redis.task id).isSome = true ∧
    readStatus id m.redis m.redis m.redis = status

/-- A state of the run in which the task has the reported status is such a moment. -/
theorem Refines.moment {e m e' : Engine Body} {before after : List (Call Body)} {id : String}
    {status : JobStatus} (h : Refines m.redis m.log) (hrun : EngineRun CoreCall e before m)
    (hrun' : EngineRun CoreCall m after e') (hborn : (jobOf m.log id).place ≠ .absent)
    (hs : statusOf (jobOf m.log id).place = some status) :
    Moment e (before ++ after) e' id status := by
  refine ⟨before, after, m, rfl, hrun, hrun', ?_, (h.holds id).readStatus hs⟩
  obtain ⟨b, -, hb, -⟩ := (h.holds id).body hborn (by intro hf; simp [hf, statusOf] at hs)
  rw [hb]
  rfl

/-- **The status was true.** A call of `readTaskFull` whose four commands run in four states
of a core run, anything happening in between, reports a status that an uninterrupted look
at Redis would have given at some moment of the call, while the task existed. The only
other case is that the task was acknowledged during the call. The counters it shows are
those of the moment it started. -/
theorem job_status_was_true {cs₀ cs₁ cs₂ cs₃ : List (Call Body)}
    {e₀ e₁ e₂ e₃ : Engine Body} (h₀ : EngineRun CoreCall .init cs₀ e₀)
    (h₁ : EngineRun CoreCall e₀ cs₁ e₁) (h₂ : EngineRun CoreCall e₁ cs₂ e₂)
    (h₃ : EngineRun CoreCall e₂ cs₃ e₃) {now : ℚ} {id : String} {job : JobView}
    (hread : readTaskFull now id e₀.redis e₁.redis e₂.redis e₃.redis = .found job) :
    (Moment e₀ (cs₁ ++ (cs₂ ++ cs₃)) e₃ id job.status ∨
      (∃ l, .acked id l ∈ e₃.log) ∧ ∀ l, .acked id l ∉ e₀.log) ∧
    ∀ a, .enqueued a ∈ e₀.log → a.id = id →
      job.attempts = e₀.failures id ∧ job.maxAttempts = a.maxRetries.toInt := by
  obtain ⟨b, tm, hb, htm, hatt, hmax, hstatus⟩ := readTaskFull_found hread
  have href₀ := core_refines h₀
  have href₁ := core_refines (h₀.append h₁)
  have href₂ := core_refines ((h₀.append h₁).append h₂)
  have href₃ := core_refines (((h₀.append h₁).append h₂).append h₃)
  constructor
  swap
  · rintro a henq rfl
    obtain ⟨h1, h2⟩ := href₀.page_counters (core_counted h₀).2 henq hb htm
    exact ⟨hatt.trans h1, hmax.trans h2⟩
  rw [hstatus]
  unfold ForgeQueue.readStatus
  split
  · -- found in flight
    rename_i hi
    obtain ⟨l, hl⟩ := (href₁.holds id).inflight.mp hi
    exact .inl (href₁.moment h₁ (h₂.append h₃) (by simp [hl]) (by simp [hl, statusOf]))
  rename_i hi
  split
  · rename_i hs
    have hp := (href₂.holds id).scheduled.mp hs
    rw [← List.append_assoc]
    exact .inl (href₂.moment (h₁.append h₂) h₃ (by simp [hp]) (by simp [hp, statusOf]))
  rename_i hs
  split
  · rename_i hd
    have hp := (href₃.holds id).isDead_iff.mp hd
    have hm : Moment e₀ ((cs₁ ++ (cs₂ ++ cs₃)) ++ []) e₃ id .dlq :=
      href₃.moment (h₁.append (h₂.append h₃)) .nil (by simp [hp]) (by simp [hp, statusOf])
    rw [List.append_nil] at hm
    exact .inl hm
  rename_i hd
  -- nothing was found: where was the task when inflight was read?
  cases hp : (jobOf e₁.log id).place with
  | ready =>
    exact .inl (href₁.moment h₁ (h₂.append h₃) (by simp [hp]) (by simp [hp, statusOf]))
  | leased l => exact absurd ((href₁.holds id).inflight.mpr ⟨l, hp⟩) hi
  | waiting =>
    have hne : (jobOf e₂.log id).place ≠ .waiting :=
      fun hw => hs ((href₂.holds id).scheduled.mpr hw)
    obtain ⟨before, after, m, rfl, hm, hm', hready⟩ := href₁.waiting_run h₂ hp hne
    have hrefm := core_refines ((h₀.append h₁).append hm)
    have hmom : Moment e₀ ((cs₁ ++ before) ++ (after ++ cs₃)) e₃ id .pending :=
      hrefm.moment (h₁.append hm) (hm'.append h₃) (by simp [hready])
        (by simp [hready, statusOf])
    simp only [List.append_assoc] at hmom ⊢
    exact .inl hmom
  | buried =>
    have hsame := Job.Over.path_eq (.inr hp) (href₁.job_path (h₂.append h₃) id)
    exact absurd ((href₃.holds id).isDead_iff.mpr (hsame ▸ hp)) hd
  | finished =>
    -- acknowledged, and after the body was read
    right
    have hsame := Job.Over.path_eq (.inl hp) (href₁.job_path (h₂.append h₃) id)
    refine ⟨(href₃.acked id).mp (hsame ▸ hp), ?_⟩
    intro l hl
    have := (href₀.holds id).finished ((href₀.acked id).mpr ⟨l, hl⟩)
    rw [hb] at this
    cases this
  | absent =>
    have hp₀ : (jobOf e₀.log id).place = .absent := by
      rw [← Job.Path.eq_of_absent (href₀.job_path h₁ id) hp]
      exact hp
    refine .inl ⟨[], _, e₀, rfl, .nil, h₁.append (h₂.append h₃), by rw [hb]; rfl, ?_⟩
    exact (href₀.holds id).readStatus (by simp [hp₀, statusOf])

end

/-- A task that failed once and waits for its second try. -/
def waitingCalls : List (Call JsonBody) :=
  [⟨0, .routeBody sampleArgs⟩, ⟨0, .routePush sampleArgs 0⟩,
    ⟨1, .claimBatch ["L1"] 31⟩, ⟨40, .requeueOrDead "job" "" 1 60⟩]

/-- It is promoted and claimed again. -/
def secondClaimCalls : List (Call JsonBody) :=
  [⟨50, .promoteTask "job"⟩, ⟨51, .claimBatch ["L2"] 81⟩]

/-- Overtaken between its second and its third command, the call finds the task neither in
flight nor scheduled and reports it as pending. At no command was it in the ready list; it
went through it in between. -/
theorem job_status_was_true_overtaken :
    ∃ job, readTaskFull 60 "job" (Engine.init.execAll waitingCalls).redis
        (Engine.init.execAll waitingCalls).redis
        ((Engine.init.execAll waitingCalls).execAll secondClaimCalls).redis
        ((Engine.init.execAll waitingCalls).execAll secondClaimCalls).redis = .found job ∧
      job.status = .pending ∧ job.attempts = 1 ∧
      Moment (Engine.init.execAll waitingCalls) secondClaimCalls
        ((Engine.init.execAll waitingCalls).execAll secondClaimCalls) "job" .pending := by
  have h₀ : EngineRun CoreCall .init waitingCalls (Engine.init.execAll waitingCalls) :=
    core_run_enqueue (.cons trivial rfl (.cons trivial rfl .nil))
  have h₂ : EngineRun CoreCall (Engine.init.execAll waitingCalls) secondClaimCalls
      ((Engine.init.execAll waitingCalls).execAll secondClaimCalls) :=
    .cons trivial rfl (.cons trivial rfl .nil)
  have hbody : (((Engine.init.execAll waitingCalls).redis.task "job").bind
      apiUnmarshal).map (·.attempts) = some 1 := by decide +kernel
  have hstatus : readStatus "job" (Engine.init.execAll waitingCalls).redis
      ((Engine.init.execAll waitingCalls).execAll secondClaimCalls).redis
      ((Engine.init.execAll waitingCalls).execAll secondClaimCalls).redis = .pending := by
    decide +kernel
  have hlive : ¬ ∃ l, .acked "job" l ∈
      ((Engine.init.execAll waitingCalls).execAll secondClaimCalls).log := by
    rw [← wasAcked_iff]
    decide +kernel
  obtain ⟨job, hread, hst, hatt⟩ : ∃ job,
      readTaskFull 60 "job" (Engine.init.execAll waitingCalls).redis
        (Engine.init.execAll waitingCalls).redis
        ((Engine.init.execAll waitingCalls).execAll secondClaimCalls).redis
        ((Engine.init.execAll waitingCalls).execAll secondClaimCalls).redis = .found job ∧
      job.status = .pending ∧ job.attempts = 1 := by
    obtain ⟨tm, htm, hatt⟩ := Option.map_eq_some_iff.mp hbody
    obtain ⟨b, hb, hdec⟩ := Option.bind_eq_some_iff.mp htm
    exact ⟨_, by rw [readTaskFull, hb]; simp only [hdec]; rfl, hstatus, hatt⟩
  have hmoment := (job_status_was_true h₀ .nil h₂ .nil hread).1.resolve_right
    fun h => hlive h.1
  rw [hst] at hmoment
  exact ⟨job, hread, hst, hatt, hmoment⟩

end ForgeQueue
