import ForgeQueue.Base.Job
import ForgeQueue.Logic.Scripts
import ForgeQueue.Model.Api

/-!
# The engine refines the leased-job model

`jobOf log id` replays the history of one task on the abstract job of
`Base.Job`. `Refines r log` says that the server is exactly that abstract state
spread over its keys: the ready list, the two sorted sets, the lease hash, the dead
list and the body each agree with the place the job is in, and the body's counters
are the job's counters. Every effect of the core engine (no journal, no operator)
keeps the relation, so it holds in every reachable state.
-/

namespace ForgeQueue

open Base

/-- Replay one event on the abstract job of `id`. -/
def advance (id : String) (ev : Event) (j : Job String) : Job String :=
  match ev with
  | .enqueued a =>
    if a.id = id then .create (decide (0 < a.delaySeconds)) a.maxRetries.toInt else j
  | .claimed t l _ => if t = id then j.grant l else j
  | .acked t _ => if t = id then j.finish else j
  | .failed t _ status => if t = id then j.fail (decide (status = some .dead)) else j
  | .reclaimed t _ status => if t = id then j.fail (decide (status = some .dead)) else j
  | .promoted t => if t = id then j.promote else j
  | _ => j

/-- The abstract job a history describes. -/
def jobOf (log : List Event) (id : String) : Job String :=
  log.foldr (advance id) .unborn

theorem jobOf_cons (ev : Event) (log : List Event) (id : String) :
    jobOf (ev :: log) id = advance id ev (jobOf log id) := rfl

/-- An event about another task does not move the job. -/
theorem advance_of_ne {id : String} {ev : Event} (h : ev.subject ≠ some id)
    (j : Job String) : advance id ev j = j := by
  cases ev <;> simp_all [Event.subject, advance]

/-- The gateway's protocol on histories: ids are fresh, and the second write of a
call follows its first write, once. No journal, no operator, no wipe. -/
def CoreOk (log : List Event) : Event → Prop
  | .bodySet a => ∀ a', .bodySet a' ∈ log → a'.id ≠ a.id
  | .enqueued a => .bodySet a ∈ log ∧ ∀ a', .enqueued a' ∈ log → a'.id ≠ a.id
  | .materialized _ | .requeued _ | .deleted _ | .wiped => False
  | _ => True

section Holds

variable {Body : Type} [BodyCodec Body]

/-- A document of a record is a dead entry of that record's id, as long as its
counters fit the struct. -/
theorem deadOf_doc {b : Body} {t : ModelTask} (h : IsDoc b t) (id : String) :
    deadOf id b = decide (t.Fits ∧ t.id = id) := by
  unfold deadOf
  rw [h.api]
  by_cases hf : t.Fits <;> simp [hf, TaskMetaData.toApi]

/-- The server's keys describe task `id` as the job `j`. -/
structure Holds (r : Redis Body) (id : String) (j : Job String) : Prop where
  ready : r.immediate.count id = if j.place = .ready then 1 else 0
  inflight : (r.inflight id).isSome = true ↔ ∃ l, j.place = .leased l
  lease : ∀ l, r.leases id = some l ↔ j.place = .leased l
  scheduled : (r.scheduled id).isSome = true ↔ j.place = .waiting
  dead : r.dead.countP (deadOf id) = if j.place = .buried then 1 else 0
  entry : ∀ b ∈ r.dead, deadOf id b = true → ∃ t, IsDoc b t ∧ t.id = id ∧
    t.maxRetries = j.budget ∧ t.attempts = j.failures
  body : j.place ≠ .absent → j.place ≠ .finished → ∃ b t, r.task id = some b ∧
    IsDoc b t ∧ t.id = id ∧ t.maxRetries = j.budget ∧ t.attempts = j.failures
  finished : j.place = .finished → r.task id = none
  range : inInt32 j.budget
  ok : j.Ok

/-- `Holds` only reads the entries of its own task. -/
theorem Holds.congr {r r' : Redis Body} {id : String} {j : Job String} (h : Holds r id j)
    (h1 : r'.immediate.count id = r.immediate.count id) (h2 : r'.inflight id = r.inflight id)
    (h3 : r'.leases id = r.leases id) (h4 : r'.scheduled id = r.scheduled id)
    (h5 : r'.dead.filter (deadOf id) = r.dead.filter (deadOf id))
    (h6 : r'.task id = r.task id) : Holds r' id j where
  ready := h1.trans h.ready
  inflight := by rw [h2]; exact h.inflight
  lease := by rw [h3]; exact h.lease
  scheduled := by rw [h4]; exact h.scheduled
  dead := by
    rw [List.countP_eq_length_filter, h5, ← List.countP_eq_length_filter]
    exact h.dead
  entry b hb hd := by
    have hmem : b ∈ r'.dead.filter (deadOf id) := List.mem_filter.mpr ⟨hb, hd⟩
    rw [h5] at hmem
    exact h.entry b (List.mem_filter.mp hmem).1 hd
  body := by rw [h6]; exact h.body
  finished := by rw [h6]; exact h.finished
  range := h.range
  ok := h.ok

/-! ## Reading the place off one key -/

theorem Holds.place_ready {r : Redis Body} {id : String} {j : Job String}
    (h : Holds r id j) (hm : id ∈ r.immediate) : j.place = .ready := by
  by_contra hne
  have hc := h.ready
  rw [if_neg hne] at hc
  exact List.count_eq_zero.mp hc hm

theorem Holds.place_leased {r : Redis Body} {id l : String} {j : Job String}
    (h : Holds r id j) (hl : r.leases id = some l) : j.place = .leased l :=
  (h.lease l).mp hl

theorem Holds.place_waiting {r : Redis Body} {id : String} {j : Job String} {score : ℚ}
    (h : Holds r id j) (hs : r.scheduled id = some score) : j.place = .waiting :=
  h.scheduled.mp (by rw [hs]; rfl)

/-- Only a buried task has a dead-list entry. -/
theorem Holds.no_entry {r : Redis Body} {id : String} {j : Job String} (h : Holds r id j)
    (hp : j.place ≠ .buried) : ∀ b ∈ r.dead, deadOf id b = false := by
  have hc := h.dead
  rw [if_neg hp, List.countP_eq_zero] at hc
  intro b hb
  exact Bool.eq_false_iff.mpr (hc b hb)

/-- A leased task is in no other key. -/
theorem Holds.leased_spec {r : Redis Body} {id l : String} {j : Job String}
    (h : Holds r id j) (hp : j.place = .leased l) :
    id ∉ r.immediate ∧ (r.inflight id).isSome = true ∧ r.scheduled id = none := by
  refine ⟨?_, h.inflight.mpr ⟨l, hp⟩, ?_⟩
  · intro hm
    rw [h.place_ready hm] at hp
    cases hp
  · cases hs : r.scheduled id with
    | none => rfl
    | some score =>
      rw [h.place_waiting hs] at hp
      cases hp

end Holds

/-! ## One lemma per event: the moved task -/

section Moves

variable {Body : Type} [TaskCodec Body]

/-- The second enqueue write of a task whose body is in place. -/
theorem Holds.enqueued {r : Redis Body} {a : RouteArgs} {j : Job String}
    (h : Holds r a.id j) (hp : j.place = .absent)
    (hb : r.task a.id = some (marshal (routeData a))) (clock : ℚ) :
    Holds (routePush (routeTarget clock a) a.id r) a.id
      (.create (decide (0 < a.delaySeconds)) a.maxRetries.toInt) := by
  have hdoc : IsDoc (marshal (routeData a) : Body) (routeData a) :=
    TaskCodec.marshal_isDoc _ (routeData_fits a)
  have hready : r.immediate.count a.id = 0 := by simpa [hp] using h.ready
  have hinfl : r.inflight a.id = none := by simpa [hp] using h.inflight
  have hlease : r.leases a.id = none := by
    rw [Option.eq_none_iff_forall_ne_some]
    intro l hl
    have := (h.lease l).mp hl
    rw [hp] at this
    cases this
  have hsched : r.scheduled a.id = none := by simpa [hp] using h.scheduled
  have hdead : r.dead.countP (deadOf a.id) = 0 := by simpa [hp] using h.dead
  have hentry := h.no_entry (by rw [hp]; nofun)
  have hbody : ∃ b t, r.task a.id = some b ∧ IsDoc b t ∧ t.id = a.id ∧
      t.maxRetries = a.maxRetries.toInt ∧ t.attempts = ((0 : ℕ) : ℤ) :=
    ⟨_, _, hb, hdoc, rfl, rfl, rfl⟩
  unfold routeTarget
  by_cases hd : 0 < a.delaySeconds
  · rw [if_pos hd]
    refine ⟨?_, ?_, ?_, ?_, ?_, fun b hb hdb => ?_, fun _ _ => hbody, ?_, inInt32_toInt _,
      .create _ _⟩
    rotate_left 5
    · exact absurd hdb (by rw [hentry b hb]; exact Bool.false_ne_true)
    all_goals simp [routePush, Job.create, hd, hready, hinfl, hlease, hdead]
  · rw [if_neg hd]
    refine ⟨?_, ?_, ?_, ?_, ?_, fun b hb hdb => ?_, fun _ _ => hbody, ?_, inInt32_toInt _,
      .create _ _⟩
    rotate_left 5
    · exact absurd hdb (by rw [hentry b hb]; exact Bool.false_ne_true)
    all_goals simp [routePush, Job.create, hd, hready, hinfl, hlease, hsched, hdead]

/-- A claim pops the only copy of the task. -/
theorem Holds.claimed {r : Redis Body} {id l : String} {ready : List String} {expiry : ℚ}
    {j : Job String} (h : Holds r id j) (hr : r.immediate = id :: ready) :
    Holds { r with immediate := ready
                   inflight := put r.inflight id expiry
                   leases := put r.leases id l } id (j.grant l) := by
  have hp : j.place = .ready := h.place_ready (by rw [hr]; exact List.mem_cons_self)
  have hready : ready.count id = 0 := by
    have := h.ready
    rw [hr, List.count_cons_self, if_pos hp] at this
    omega
  refine ⟨?_, ?_, ?_, ?_, ?_, h.entry, ?_, ?_, h.range, h.ok.grant hp l⟩
  · simpa [Job.grant] using hready
  · simp [Job.grant]
  · intro l'
    simp [Job.grant]
  · have := h.scheduled
    rw [hp] at this
    simpa [Job.grant] using this
  · have := h.dead
    rw [hp] at this
    simpa [Job.grant] using this
  · intro _ _
    exact h.body (by simp [hp]) (by simp [hp])
  · intro hf
    cases hf

/-- A renewal moves the expiry of a task that stays leased. -/
theorem Holds.beat {r : Redis Body} {id l : String} {j : Job String} (h : Holds r id j)
    (hl : r.leases id = some l) (expiry : ℚ) :
    Holds { r with inflight := put r.inflight id expiry } id j :=
  ⟨h.ready, by simp [h.place_leased hl], h.lease, h.scheduled, h.dead, h.entry, h.body,
    h.finished, h.range, h.ok⟩

/-- The first enqueue write: the body of an absent task is free to change. -/
theorem Holds.absent_task {r : Redis Body} {id : String} {j : Job String} (h : Holds r id j)
    (hp : j.place = .absent) (task : String → Option Body) :
    Holds { r with task := task } id j :=
  ⟨h.ready, h.inflight, h.lease, h.scheduled, h.dead, h.entry, fun hne => absurd hp hne,
    (fun hf => nomatch hp.symm.trans hf), h.range, h.ok⟩

/-- An acknowledgement removes the lease and the body. -/
theorem Holds.acked {r : Redis Body} {id l : String} {j : Job String} (h : Holds r id j)
    (hl : r.leases id = some l) :
    Holds { r.release id with task := del r.task id } id j.finish := by
  have hp := h.place_leased hl
  refine ⟨?_, ?_, ?_, ?_, ?_, h.entry, ?_, ?_, h.range, h.ok.finish hp⟩
  · have := h.ready
    rw [hp] at this
    simpa [Job.finish] using this
  · simp [Job.finish]
  · intro l'
    simp [Job.finish]
  · have := h.scheduled
    rw [hp] at this
    simpa [Job.finish] using this
  · have := h.dead
    rw [hp] at this
    simpa [Job.finish] using this
  · intro _ hf
    exact absurd rfl hf
  · intro _
    exact del_self _ _

/-- A due task goes to the ready list. -/
theorem Holds.promoted {r : Redis Body} {id : String} {score : ℚ} {j : Job String}
    (h : Holds r id j) (hs : r.scheduled id = some score) :
    Holds { r with scheduled := del r.scheduled id, immediate := id :: r.immediate } id
      j.promote := by
  have hp := h.place_waiting hs
  have hready : r.immediate.count id = 0 := by simpa [hp] using h.ready
  refine ⟨?_, ?_, ?_, ?_, ?_, h.entry, ?_, ?_, h.range, h.ok.promote hp⟩
  · simp [Job.promote, hready]
  · have := h.inflight
    rw [hp] at this
    simpa [Job.promote] using this
  · intro l
    have := h.lease l
    rw [hp] at this
    simpa [Job.promote] using this
  · simp [Job.promote]
  · have := h.dead
    rw [hp] at this
    simpa [Job.promote] using this
  · intro _ _
    exact h.body (by simp [hp]) (by simp [hp])
  · intro hf
    cases hf

/-- What a failed attempt does to a leased task: the outcome, and the dead-list
entry it may leave. -/
theorem Holds.retry {r : Redis Body} {id l : String} {j : Job String} (h : Holds r id j)
    (hp : j.place = .leased l) (now base cap : ℚ) :
    ∃ b', (∀ x, x ≠ id → deadOf x b' = false) ∧
      ((retryOrBury now base cap id (r.release id)).1.dead = r.dead ∨
        (retryOrBury now base cap id (r.release id)).1.dead = b' :: r.dead) ∧
      ((retryOrBury now base cap id (r.release id)).2 = some .dead ↔ j.lastAttempt) ∧
      ((retryOrBury now base cap id (r.release id)).2 = some .dead ∨
        (retryOrBury now base cap id (r.release id)).2 = some .scheduled) ∧
      Holds (retryOrBury now base cap id (r.release id)).1 id
        (j.fail (decide j.lastAttempt)) := by
  obtain ⟨b, t, hb, hdoc, hid, hmax, hatt⟩ :=
    h.body (by simp [hp]) (by simp [hp])
  obtain ⟨b', hdoc', heq⟩ := retryOrBury_doc now base cap id (r.release id) hb hdoc
  have hexh : t.Exhausted ↔ j.lastAttempt := by
    rw [TaskMetaData.Exhausted, Job.lastAttempt, hmax, hatt]
  have hready : r.immediate.count id = 0 := by simpa [hp] using h.ready
  have hdead : r.dead.countP (deadOf id) = 0 := by simpa [hp] using h.dead
  have hentry := h.no_entry (by simp [hp])
  obtain ⟨-, -, hsched⟩ := h.leased_spec hp
  have hbody : ∃ b t, (put r.task id b') id = some b ∧ IsDoc b t ∧ t.id = id ∧
      t.maxRetries = j.budget ∧ t.attempts = ((j.failures + 1 : ℕ) : ℤ) :=
    ⟨b', t.bump, put_self _ _ _, hdoc', hid, hmax, by rw [TaskMetaData.bump, hatt]; rfl⟩
  have hok := h.ok.fail hp
  refine ⟨b', ?_, ?_⟩
  · intro x hx
    rw [deadOf_doc hdoc']
    exact decide_eq_false fun hc => hx (hc.2.symm.trans hid)
  rw [heq]
  by_cases hl : j.lastAttempt
  · -- the budget is used up: the rewritten body is the new dead entry
    have hfits : t.bump.Fits := by
      refine ⟨hmax ▸ h.range, ?_⟩
      have h1 := h.ok.within (by simp [hp]) hl.1
      have h2 := hl.2
      have h3 := h.range
      have h4 : t.bump.attempts = j.budget := by
        show t.attempts + 1 = j.budget
        omega
      rw [h4]
      exact h3
    have hnew : deadOf id b' = true := by
      rw [deadOf_doc hdoc']
      exact decide_eq_true ⟨hfits, hid⟩
    rw [if_pos (hexh.mpr hl)]
    refine ⟨.inr rfl, by simp [hl], .inl rfl, ?_⟩
    refine ⟨?_, ?_, ?_, ?_, ?_, ?_, fun _ _ => hbody, ?_, h.range, hok⟩
    rotate_left 5
    · intro x hx hdx
      rcases List.mem_cons.mp hx with rfl | hmem
      · exact ⟨t.bump, hdoc', hid, hmax, by rw [TaskMetaData.bump, hatt]; rfl⟩
      · exact absurd hdx (by rw [hentry x hmem]; exact Bool.false_ne_true)
    all_goals simp [Job.fail, hl, hready, hsched, hdead, hnew]
  · rw [if_neg (fun he => hl (hexh.mp he))]
    refine ⟨.inl rfl, by simp [hl], .inr rfl, ?_⟩
    refine ⟨?_, ?_, ?_, ?_, ?_, ?_, fun _ _ => hbody, ?_, h.range, hok⟩
    rotate_left 5
    · intro x hx hdx
      exact absurd hdx (by rw [hentry x hx]; exact Bool.false_ne_true)
    all_goals simp [Job.fail, hl, hready, hdead]

end Moves

/-! ## The refinement relation -/

section Refines

variable {Body : Type} [TaskCodec Body]

/-- The server is the abstract state of every task, and the gateway calls between
their two writes have their body in place. -/
structure Refines (r : Redis Body) (log : List Event) : Prop where
  holds : ∀ id, Holds r id (jobOf log id)
  pending : ∀ a, .bodySet a ∈ log → (∀ a', .enqueued a' ∈ log → a'.id ≠ a.id) →
    r.task a.id = some (marshal (routeData a))
  born : ∀ id, (jobOf log id).place ≠ .absent ↔ ∃ a, .enqueued a ∈ log ∧ a.id = id
  acked : ∀ id, (jobOf log id).place = .finished ↔ ∃ l, .acked id l ∈ log
  ordered : ∀ a, .enqueued a ∈ log → .bodySet a ∈ log

/-- The abstract state does not know when a waiting task is due. -/
theorem Refines.rescore {r : Redis Body} {log : List Event} (h : Refines r log)
    {scheduled : String → Option ℚ} (hs : ∀ id, (scheduled id).isSome = (r.scheduled id).isSome) :
    Refines { r with scheduled := scheduled } log :=
  { h with
    holds := fun id =>
      { h.holds id with scheduled := by rw [hs id]; exact (h.holds id).scheduled } }

theorem Refines.init : Refines (Redis.empty : Redis Body) [] where
  holds id := by
    refine ⟨rfl, ?_, ?_, ?_, rfl, nofun, fun h => absurd rfl h, ?_, ?_, .unborn⟩
    iterate 4 simp [jobOf, Job.unborn, Redis.empty]
    show inInt32 0
    decide
  pending a h := by cases h
  born id := by simp [jobOf, Job.unborn]
  acked id := by simp [jobOf, Job.unborn]
  ordered a h := by cases h

/-- An event about `id` changes `Refines` at `id` only. -/
theorem Refines.at_subject {r r' : Redis Body} {log : List Event} {ev : Event} {id : String}
    (h : Refines r log) (heff : Effect r ev r') (hsub : ev.subject = some id)
    (hdead : ∀ x, x ≠ id → r'.dead.filter (deadOf x) = r.dead.filter (deadOf x))
    (hnew : Holds r' id (jobOf (ev :: log) id))
    (hpend : ∀ a, a.id = id → .bodySet a ∈ ev :: log →
      (∀ a', .enqueued a' ∈ ev :: log → a'.id ≠ a.id) →
      r'.task a.id = some (marshal (routeData a)))
    (hborn : (jobOf (ev :: log) id).place ≠ .absent ↔ ∃ a, .enqueued a ∈ ev :: log ∧ a.id = id)
    (hack : (jobOf (ev :: log) id).place = .finished ↔ ∃ l, .acked id l ∈ ev :: log)
    (hord : ∀ a, ev = .enqueued a → .bodySet a ∈ log) : Refines r' (ev :: log) := by
  have hw : ev ≠ .wiped := by rintro rfl; cases hsub
  have hother : ∀ {x}, x ≠ id → ev.subject ≠ some x := by
    intro x hx he
    rw [hsub] at he
    exact hx (Option.some.inj he).symm
  refine ⟨?_, ?_, ?_, ?_, ?_⟩
  · intro x
    by_cases hx : x = id
    · exact hx ▸ hnew
    · have hs := heff.sameAt (hother hx) hw
      rw [jobOf_cons, advance_of_ne (hother hx)]
      exact (h.holds x).congr hs.immediate hs.inflight hs.leases hs.scheduled (hdead x hx) hs.task
  · intro a hset henq
    by_cases hx : a.id = id
    · exact hpend a hx hset henq
    · rw [(heff.sameAt (hother hx) hw).task]
      refine h.pending a ?_ (fun a' ha' => henq a' (List.mem_cons_of_mem _ ha'))
      rcases List.mem_cons.mp hset with rfl | hmem
      · exact absurd (Option.some.inj hsub) hx
      · exact hmem
  · intro x
    by_cases hx : x = id
    · exact hx ▸ hborn
    · rw [jobOf_cons, advance_of_ne (hother hx), h.born x]
      constructor
      · rintro ⟨a, ha, hax⟩
        exact ⟨a, List.mem_cons_of_mem _ ha, hax⟩
      · rintro ⟨a, ha, hax⟩
        rcases List.mem_cons.mp ha with rfl | hmem
        · exact absurd (hax.symm.trans (Option.some.inj hsub)) hx
        · exact ⟨a, hmem, hax⟩
  · intro x
    by_cases hx : x = id
    · exact hx ▸ hack
    · rw [jobOf_cons, advance_of_ne (hother hx), h.acked x]
      constructor
      · rintro ⟨l, hl⟩
        exact ⟨l, List.mem_cons_of_mem _ hl⟩
      · rintro ⟨l, hl⟩
        rcases List.mem_cons.mp hl with rfl | hmem
        · exact absurd (Option.some.inj hsub) hx
        · exact ⟨l, hmem⟩
  · intro a ha
    rcases List.mem_cons.mp ha with heq | hmem
    · exact List.mem_cons_of_mem _ (hord a heq.symm)
    · exact List.mem_cons_of_mem _ (h.ordered a hmem)

/-- The common case: an event of an enqueued task that is neither enqueue write. -/
theorem Refines.at_born {r r' : Redis Body} {log : List Event} {ev : Event} {id : String}
    (h : Refines r log) (heff : Effect r ev r') (hsub : ev.subject = some id)
    (hdead : ∀ x, x ≠ id → r'.dead.filter (deadOf x) = r.dead.filter (deadOf x))
    (hnew : Holds r' id (jobOf (ev :: log) id))
    (hwas : (jobOf log id).place ≠ .absent)
    (hset : ∀ a, ev ≠ .enqueued a) (hnow : (jobOf (ev :: log) id).place ≠ .absent)
    (hack : (jobOf (ev :: log) id).place = .finished ↔ ∃ l, .acked id l ∈ ev :: log) :
    Refines r' (ev :: log) := by
  obtain ⟨a₀, ha₀, hid₀⟩ := (h.born id).mp hwas
  refine h.at_subject heff hsub hdead hnew ?_ ?_ hack (fun a he => absurd he (hset a))
  · intro a ha _ henq
    exact absurd (hid₀.trans ha.symm) (henq a₀ (List.mem_cons_of_mem _ ha₀))
  · exact ⟨fun _ => ⟨a₀, List.mem_cons_of_mem _ ha₀, hid₀⟩, fun _ => hnow⟩

/-- An event that acknowledges nothing leaves the acknowledgements as they were. -/
theorem Refines.acked_cons {r : Redis Body} {log : List Event} (h : Refines r log)
    {ev : Event} {id : String} (hev : ∀ l, ev ≠ .acked id l)
    (hold : (jobOf log id).place ≠ .finished) :
    ¬ ∃ l, Event.acked id l ∈ ev :: log := by
  rintro ⟨l, hl⟩
  rcases List.mem_cons.mp hl with rfl | hmem
  · exact hev l rfl
  · exact hold ((h.acked id).mpr ⟨l, hmem⟩)

/-- A failed attempt, reported by the owner or by recovery. -/
theorem Refines.retry {r : Redis Body} {log : List Event} {id l : String} {ev : Event}
    (h : Refines r log) (hp : (jobOf log id).place = .leased l) (now base cap : ℚ)
    (heff : Effect r ev (retryOrBury now base cap id (r.release id)).1)
    (hsub : ev.subject = some id) (hset : ∀ a, ev ≠ .enqueued a) (hev : ∀ l', ev ≠ .acked id l')
    (hadv : jobOf (ev :: log) id = (jobOf log id).fail
      (decide ((retryOrBury now base cap id (r.release id)).2 = some .dead))) :
    Refines (retryOrBury now base cap id (r.release id)).1 (ev :: log) := by
  obtain ⟨b', hb', hdead, hlast, -, hnew⟩ := (h.holds id).retry hp now base cap
  have hplace : (jobOf (ev :: log) id).place ≠ .absent ∧
      (jobOf (ev :: log) id).place ≠ .finished := by
    rw [hadv]
    unfold Job.fail
    split <;> exact ⟨nofun, nofun⟩
  refine h.at_born heff hsub ?_ ?_ (by rw [hp]; nofun) hset hplace.1 ?_
  · intro x hx
    rcases hdead with hd | hd
    · rw [hd]
    · rw [hd, List.filter_cons_of_neg (by rw [hb' x hx]; exact Bool.false_ne_true)]
  · rw [hadv, decide_eq_decide.mpr hlast]
    exact hnew
  · exact ⟨fun hf => absurd hf hplace.2,
      fun ha => absurd ha (h.acked_cons hev (by rw [hp]; nofun))⟩

/-- **Step lemma.** Every effect of the core engine keeps the refinement. -/
theorem Refines.effect {r r' : Redis Body} {log : List Event} {ev : Event}
    (hok : CoreOk log ev) (heff : Effect r ev r') (h : Refines r log) :
    Refines r' (ev :: log) := by
  cases heff with
  | bodySet a =>
    -- a fresh id: nothing of the task exists yet, so only the body moves
    have hborn : ¬ ∃ a', Event.enqueued a' ∈ log ∧ a'.id = a.id := by
      rintro ⟨a', ha', hid⟩
      exact hok a' (h.ordered a' ha') hid
    have hplace : (jobOf log a.id).place = .absent := by
      by_contra hne
      exact hborn ((h.born a.id).mp hne)
    refine h.at_subject (.bodySet r a) rfl (fun _ _ => rfl) ?_ ?_ ?_ ?_ nofun
    · exact (h.holds a.id).absent_task hplace _
    · intro a' ha' hset _
      rcases List.mem_cons.mp hset with heq | hmem
      · cases heq
        exact put_self _ _ _
      · exact absurd ha' (hok a' hmem)
    · rw [show jobOf (.bodySet a :: log) a.id = jobOf log a.id from rfl, h.born a.id]
      simp
    · rw [show jobOf (.bodySet a :: log) a.id = jobOf log a.id from rfl, h.acked a.id]
      simp
  | enqueued a clock =>
    have hplace : (jobOf log a.id).place = .absent := by
      by_contra hne
      obtain ⟨a', ha', hid⟩ := (h.born a.id).mp hne
      exact hok.2 a' ha' hid
    have hadv : jobOf (.enqueued a :: log) a.id =
        .create (decide (0 < a.delaySeconds)) a.maxRetries.toInt := by
      simp [jobOf_cons, advance]
    have hnew : (jobOf (.enqueued a :: log) a.id).place ≠ .absent ∧
        (jobOf (.enqueued a :: log) a.id).place ≠ .finished := by
      rw [hadv]
      unfold Job.create
      split <;> exact ⟨nofun, nofun⟩
    refine h.at_subject (.enqueued r a clock) rfl ?_ ?_ ?_ ?_ ?_ ?_
    · intro x _
      cases routeTarget clock a <;> rfl
    · rw [hadv]
      exact (h.holds a.id).enqueued hplace (h.pending a hok.1 hok.2) clock
    · intro a' ha' _ henq
      exact absurd ha'.symm (henq a List.mem_cons_self)
    · exact ⟨fun _ => ⟨a, List.mem_cons_self, rfl⟩, fun _ => hnew.1⟩
    · exact ⟨fun hf => absurd hf hnew.2,
        fun ha => absurd ha (h.acked_cons nofun (by rw [hplace]; nofun))⟩
    · intro a' he
      cases he
      exact hok.1
  | paused on =>
    have hjob : ∀ id, jobOf (.paused on :: log) id = jobOf log id := fun _ => rfl
    refine ⟨fun id => (h.holds id).congr rfl rfl rfl rfl rfl rfl, ?_, ?_, ?_, ?_⟩
    · intro a ha henq
      simp only [List.mem_cons, reduceCtorEq, false_or] at ha henq
      exact h.pending a ha henq
    · intro id
      rw [hjob, h.born id]
      simp
    · intro id
      rw [hjob, h.acked id]
      simp
    · intro a ha
      simp only [List.mem_cons, reduceCtorEq, false_or] at ha ⊢
      exact h.ordered a ha
  | claimed t ready l e hp hr =>
    have hplace := (h.holds t).place_ready (by rw [hr]; exact List.mem_cons_self)
    have hadv : jobOf (.claimed t l e :: log) t = (jobOf log t).grant l := by
      simp [jobOf_cons, advance]
    refine h.at_born (.claimed r t ready l e hp hr) rfl (fun _ _ => rfl) ?_
      (by rw [hplace]; nofun) nofun (by rw [hadv]; nofun) ?_
    · rw [hadv]
      exact (h.holds t).claimed hr
    · rw [hadv]
      exact ⟨nofun, fun ha => absurd ha (h.acked_cons nofun (by rw [hplace]; nofun))⟩
  | beat t l e hl =>
    have hplace := (h.holds t).place_leased hl
    have hadv : jobOf (.beat t l e :: log) t = jobOf log t := rfl
    refine h.at_born (.beat r t l e hl) rfl (fun _ _ => rfl) ?_
      (by rw [hplace]; nofun) nofun (by rw [hadv, hplace]; nofun) ?_
    · exact (h.holds t).beat hl e
    · rw [hadv, h.acked t]
      simp
  | acked t l hl =>
    have hplace := (h.holds t).place_leased hl
    have hadv : jobOf (.acked t l :: log) t = (jobOf log t).finish := by
      simp [jobOf_cons, advance]
    refine h.at_born (.acked r t l hl) rfl (fun _ _ => rfl) ?_
      (by rw [hplace]; nofun) nofun (by rw [hadv]; nofun) ?_
    · rw [hadv]
      exact (h.holds t).acked hl
    · rw [hadv]
      exact ⟨fun _ => ⟨l, List.mem_cons_self⟩, fun _ => rfl⟩
  | failed t l now base cap hne hl =>
    refine h.retry ((h.holds t).place_leased hl) now base cap
      (.failed r t l now base cap hne hl) rfl nofun nofun ?_
    simp [jobOf_cons, advance]
  | reclaimed t e now base cap he hle =>
    obtain ⟨l, hplace⟩ := (h.holds t).inflight.mp (by rw [he]; rfl)
    refine h.retry hplace now base cap (.reclaimed r t e now base cap he hle) rfl nofun nofun ?_
    simp [jobOf_cons, advance]
  | promoted t score now hs hle =>
    have hplace := (h.holds t).place_waiting hs
    have hadv : jobOf (.promoted t :: log) t = (jobOf log t).promote := by
      simp [jobOf_cons, advance]
    refine h.at_born (.promoted r t score now hs hle) rfl (fun _ _ => rfl) ?_
      (by rw [hplace]; nofun) nofun (by rw [hadv]; nofun) ?_
    · rw [hadv]
      exact (h.holds t).promoted hs
    · rw [hadv]
      exact ⟨nofun, fun ha => absurd ha (h.acked_cons nofun (by rw [hplace]; nofun))⟩
  | materialized _ _ _ _ => exact hok.elim
  | requeued _ => exact hok.elim
  | deleted _ => exact hok.elim
  | wiped => exact hok.elim

/-- When the guard lets a call through, the task is leased. -/
theorem Refines.guard_leased {r : Redis Body} {log : List Event} (h : Refines r log)
    {now : ℚ} {id leaseID : String} (hg : requeueGuard now id leaseID r = none) :
    ∃ l, (jobOf log id).place = .leased l := by
  unfold requeueGuard at hg
  by_cases hne : leaseID ≠ ""
  · rw [if_pos hne] at hg
    by_cases hc : r.leases id = some leaseID
    · exact ⟨leaseID, (h.holds id).place_leased hc⟩
    · rw [if_neg hc] at hg
      cases hg
  · rw [if_neg hne] at hg
    refine (h.holds id).inflight.mp ?_
    cases hi : r.inflight id with
    | none => rw [hi] at hg; cases hg
    | some e => rfl

/-! ## The core engine -/

/-- The environment of the core engine: any number of gateway calls (fresh ids,
body first, then the queue entry), workers, recovery loops and promotion loops, with
any arguments, and an operator who only pauses and resumes. -/
def CoreCall (e : Engine Body) (c : Call Body) : Prop :=
  match c.op with
  | .routeBody a => ∀ a', .bodySet a' ∈ e.log → a'.id ≠ a.id
  | .routePush a _ => .bodySet a ∈ e.log ∧ ∀ a', .enqueued a' ∈ e.log → a'.id ≠ a.id
  | .materialize _ _ _ | .requeueTx _ | .deleteTx _ | .wipe => False
  | _ => True

/-- What a core call puts into the history is allowed there. -/
theorem CoreCall.allowed {e : Engine Body} {c : Call Body} (h : CoreCall e c) :
    Allowed CoreOk e.log (e.redis.events c.now c.op) := by
  obtain ⟨now, op⟩ := c
  cases op with
  | routeBody a => exact ⟨h, trivial⟩
  | routePush a clock => exact ⟨h, trivial⟩
  | claimBatch leaseIDs expiry =>
    refine .of_emits ?_ _
    rintro ev log ⟨t, l, -, rfl⟩
    trivial
  | heartbeat taskID leaseID d =>
    refine .of_emits ?_ _
    rintro ev log ⟨x, rfl⟩
    trivial
  | ackBatch pairs =>
    refine .of_emits ?_ _
    rintro ev log ⟨t, l, rfl⟩
    trivial
  | requeueOrDead taskID leaseID base cap =>
    refine .of_emits ?_ _
    rintro ev log (⟨status, rfl⟩ | ⟨l, status, rfl⟩) <;> trivial
  | promoteTask taskID =>
    refine .of_emits ?_ _
    rintro ev log rfl
    trivial
  | pause => exact ⟨trivial, trivial⟩
  | resume => exact ⟨trivial, trivial⟩
  | materialize _ _ _ => exact h.elim
  | requeueTx _ => exact h.elim
  | deleteTx _ => exact h.elim
  | wipe => exact h.elim

/-- A gateway call on an empty queue, and what follows it. -/
theorem core_run_enqueue {a : RouteArgs} {now now' clock : ℚ} {cs : List (Call Body)}
    {e : Engine Body}
    (h : EngineRun CoreCall
      ((Engine.init.exec ⟨now, .routeBody a⟩).exec ⟨now', .routePush a clock⟩) cs e) :
    EngineRun CoreCall .init (⟨now, .routeBody a⟩ :: ⟨now', .routePush a clock⟩ :: cs) e := by
  refine .cons ?_ rfl (.cons ?_ rfl h)
  · intro a' ha'
    cases ha'
  · refine ⟨List.mem_cons_self, ?_⟩
    intro a' ha'
    simp [Engine.exec, Engine.init, Redis.events] at ha'

/-- **Refinement.** Every reachable state of the core engine is the abstract state
its history describes. -/
theorem core_refines {cs : List (Call Body)} {e : Engine Body}
    (h : EngineRun CoreCall .init cs e) : Refines e.redis e.log :=
  EngineRun.invariant Refines (fun _ _ hok => hok.allowed)
    (fun _ _ _ _ hok heff hr => hr.effect hok heff) h .init

end Refines

end ForgeQueue
