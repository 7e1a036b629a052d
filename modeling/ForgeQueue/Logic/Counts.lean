import ForgeQueue.Logic.Lifecycle

/-!
# Counting claims and failures

The history records claims and failed attempts as events, the abstract job counts them.
Along every run of the core engine the two agree.
-/

namespace ForgeQueue

open Base

/-- A lease of `id` ended in an owner's failure report or a recovery. -/
def Event.failureOf (id : String) : Event → Bool
  | .failed t _ _ => t == id
  | .reclaimed t _ _ => t == id
  | _ => false

/-- `id` was claimed. -/
def Event.claimOf (id : String) : Event → Bool
  | .claimed t _ _ => t == id
  | _ => false

/-- The job's counters are the counts of its events, and its budget is the one it was
enqueued with. -/
structure Counted (log : List Event) : Prop where
  failures : ∀ id, (jobOf log id).failures = log.countP (Event.failureOf id)
  grants : ∀ id, (jobOf log id).grants = log.countP (Event.claimOf id)
  unborn : ∀ id, (jobOf log id).place = .absent → (jobOf log id).failures = 0
  budget : ∀ a, .enqueued a ∈ log → (jobOf log a.id).budget = a.maxRetries.toInt

theorem Counted.init : Counted [] where
  failures _ := rfl
  grants _ := rfl
  unborn _ _ := rfl
  budget _ h := by cases h

/-- An event of a task that is not its creation keeps the counts right if it moves
each counter by what it counts for, and does not unmake the task. -/
theorem Counted.cons {log : List Event} {ev : Event} (h : Counted log)
    (hnew : ∀ a, ev ≠ .enqueued a)
    (hf : ∀ id, (advance id ev (jobOf log id)).failures =
      (jobOf log id).failures + if ev.failureOf id then 1 else 0)
    (hg : ∀ id, (advance id ev (jobOf log id)).grants =
      (jobOf log id).grants + if ev.claimOf id then 1 else 0)
    (hb : ∀ id, (advance id ev (jobOf log id)).budget = (jobOf log id).budget)
    (hu : ∀ id, (advance id ev (jobOf log id)).place = .absent →
      (jobOf log id).place = .absent ∧ ev.failureOf id = false) : Counted (ev :: log) where
  failures id := by
    rw [jobOf_cons, hf, h.failures id, List.countP_cons]
  grants id := by
    rw [jobOf_cons, hg, h.grants id, List.countP_cons]
  unborn id hp := by
    rw [jobOf_cons] at hp ⊢
    obtain ⟨hp', hno⟩ := hu id hp
    rw [hf, hno, h.unborn id hp']
    rfl
  budget a ha := by
    rcases List.mem_cons.mp ha with heq | hmem
    · exact absurd heq.symm (hnew a)
    · rw [jobOf_cons, hb, h.budget a hmem]

section

variable {Body : Type} [TaskCodec Body]

/-- **Step.** Every effect of the core engine keeps the counts. -/
theorem Counted.effect {r r' : Redis Body} {log : List Event} {ev : Event} (h : Counted log)
    (href : Refines r log) (hok : CoreOk log ev) (heff : Effect r ev r') :
    Counted (ev :: log) := by
  cases heff with
  | enqueued a clock =>
    -- creation resets the counters, and nothing was counted before it
    have habs : (jobOf log a.id).place = .absent := by
      by_contra hne
      obtain ⟨a', ha', hid⟩ := (href.born a.id).mp hne
      exact hok.2 a' ha' hid
    have hzero := h.unborn a.id habs
    have hgrants : (jobOf log a.id).grants = 0 := by
      rw [(href.holds a.id).ok.grants, hzero, habs]
      rfl
    have hother : ∀ {id}, id ≠ a.id → (Event.enqueued a).subject ≠ some id :=
      fun hx he => hx (Option.some.inj he).symm
    have hself : jobOf (.enqueued a :: log) a.id =
        .create (decide (0 < a.delaySeconds)) a.maxRetries.toInt := by
      simp [jobOf_cons, advance]
    refine ⟨?_, ?_, ?_, ?_⟩
    · intro id
      rw [List.countP_cons_of_neg (by simp [Event.failureOf])]
      by_cases hx : id = a.id
      · rw [hx, hself, ← h.failures, hzero]
        rfl
      · rw [jobOf_cons, advance_of_ne (hother hx)]
        exact h.failures id
    · intro id
      rw [List.countP_cons_of_neg (by simp [Event.claimOf])]
      by_cases hx : id = a.id
      · rw [hx, hself, ← h.grants, hgrants]
        rfl
      · rw [jobOf_cons, advance_of_ne (hother hx)]
        exact h.grants id
    · intro id hp
      by_cases hx : id = a.id
      · rw [hx, hself]
        rfl
      · rw [jobOf_cons, advance_of_ne (hother hx)] at hp ⊢
        exact h.unborn id hp
    · intro a' ha'
      rcases List.mem_cons.mp ha' with heq | hmem
      · obtain rfl : a' = a := by injection heq
        rw [hself]
        rfl
      · have hx : a'.id ≠ a.id := hok.2 a' hmem
        rw [jobOf_cons, advance_of_ne (hother hx)]
        exact h.budget a' hmem
  | bodySet a =>
    exact h.cons (by simp) (fun _ => rfl) (fun _ => rfl) (fun _ => rfl) (fun _ hp => ⟨hp, rfl⟩)
  | paused on =>
    exact h.cons (by simp) (fun _ => rfl) (fun _ => rfl) (fun _ => rfl) (fun _ hp => ⟨hp, rfl⟩)
  | beat t l e _ =>
    exact h.cons (by simp) (fun _ => rfl) (fun _ => rfl) (fun _ => rfl) (fun _ hp => ⟨hp, rfl⟩)
  | claimed t ready l e _ _ =>
    refine h.cons (by simp) ?_ ?_ ?_ ?_ <;> intro id <;> by_cases hx : t = id <;>
      simp [advance, Event.failureOf, Event.claimOf, Job.grant, hx]
  | acked t l _ =>
    refine h.cons (by simp) ?_ ?_ ?_ ?_ <;> intro id <;> by_cases hx : t = id <;>
      simp [advance, Event.failureOf, Event.claimOf, Job.finish, hx]
  | failed t l now base cap _ _ =>
    refine h.cons (by simp) ?_ ?_ ?_ ?_ <;> intro id <;> by_cases hx : t = id <;>
      simp [advance, Event.failureOf, Event.claimOf, Job.fail, hx]
    split <;> simp
  | reclaimed t e now base cap _ _ =>
    refine h.cons (by simp) ?_ ?_ ?_ ?_ <;> intro id <;> by_cases hx : t = id <;>
      simp [advance, Event.failureOf, Event.claimOf, Job.fail, hx]
    split <;> simp
  | promoted t score now _ _ =>
    refine h.cons (by simp) ?_ ?_ ?_ ?_ <;> intro id <;> by_cases hx : t = id <;>
      simp [advance, Event.failureOf, Event.claimOf, Job.promote, hx]
  | materialized _ _ _ _ => exact hok.elim
  | requeued _ => exact hok.elim
  | deleted _ => exact hok.elim
  | wiped => exact hok.elim

/-- Both invariants along every run of core calls. -/
theorem counted_run {cs : List (Call Body)} {e e' : Engine Body}
    (h : EngineRun CoreCall e cs e') (h₀ : Refines e.redis e.log ∧ Counted e.log) :
    Refines e'.redis e'.log ∧ Counted e'.log := by
  have hstep : ∀ (r : Redis Body) log ev r', CoreOk log ev → Effect r ev r' →
      Refines r log ∧ Counted log → Refines r' (ev :: log) ∧ Counted (ev :: log) := by
    rintro r log ev r' hok heff ⟨href, hcnt⟩
    exact ⟨href.effect hok heff, hcnt.effect href hok heff⟩
  exact EngineRun.invariant (fun r log => Refines r log ∧ Counted log)
    (fun _ _ hok => hok.allowed) hstep h h₀

/-- And in every reachable state of the core engine. -/
theorem core_counted {cs : List (Call Body)} {e : Engine Body}
    (h : EngineRun CoreCall .init cs e) : Refines e.redis e.log ∧ Counted e.log :=
  counted_run h ⟨.init, .init⟩

end

/-- The leases of `id` that ended in a failure or a recovery. -/
def Engine.failures {Body : Type} (e : Engine Body) (id : String) : ℤ := e.log.countP (Event.failureOf id)

/-- The claims of `id`. -/
def Engine.claims {Body : Type} (e : Engine Body) (id : String) : ℤ := e.log.countP (Event.claimOf id)

end ForgeQueue
