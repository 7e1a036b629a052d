import ForgeQueue.Base.Eventually
import ForgeQueue.Logic.Lifecycle

/-!
# Every history is a life

Seen from one task, every event of the core engine is one move of the abstract job, or it
leaves the job alone and with it the scores under which the task is filed. Finite runs are
then paths of the job.
-/

namespace ForgeQueue

open Base

variable {Body : Type} [TaskCodec Body]

/-- Between two states the job and its scores are the same. -/
structure Still (id : String) (r : Redis Body) (log : List Event) (r' : Redis Body)
    (log' : List Event) : Prop where
  job : jobOf log' id = jobOf log id
  scheduled : r'.scheduled id = r.scheduled id
  inflight : r'.inflight id = r.inflight id

omit [TaskCodec Body] in
theorem Still.of_sameAt {id : String} {r r' : Redis Body} {log : List Event} {ev : Event}
    (h : SameAt id r r') (hs : ev.subject ≠ some id) : Still id r log r' (ev :: log) :=
  ⟨advance_of_ne hs _, h.scheduled, h.inflight⟩

omit [TaskCodec Body] in
theorem Still.trans {id : String} {r r' r'' : Redis Body} {log log' log'' : List Event}
    (h : Still id r log r' log') (h' : Still id r' log' r'' log'') :
    Still id r log r'' log'' :=
  ⟨h'.job.trans h.job, h'.scheduled.trans h.scheduled, h'.inflight.trans h.inflight⟩

/-- **Step.** An effect of the core engine is one move of the job, or a renewal of its
lease, or it is nothing to the task. -/
theorem Refines.job_step {r r' : Redis Body} {log : List Event} {ev : Event}
    (h : Refines r log) (hok : CoreOk log ev) (heff : Effect r ev r') (id : String) :
    (Still id r log r' (ev :: log) ∨
      (∃ l x, ev = .beat id l x) ∧ jobOf (ev :: log) id = jobOf log id) ∨
    (jobOf log id).Step (jobOf (ev :: log) id) := by
  by_cases hw : ev = .wiped
  · subst hw
    exact hok.elim
  by_cases hs : ev.subject = some id
  swap
  · exact .inl (.inl (.of_sameAt (heff.sameAt hs hw) hs))
  rw [jobOf_cons]
  cases heff with
  | bodySet a => exact .inl (.inl ⟨rfl, rfl, rfl⟩)
  | enqueued a clock =>
    obtain rfl : a.id = id := Option.some.inj hs
    have habs : (jobOf log a.id).place = .absent := by
      by_contra hne
      obtain ⟨a', ha', hid⟩ := (h.born a.id).mp hne
      exact hok.2 a' ha' hid
    simp only [advance, if_true]
    exact .inr (.create _ _ habs)
  | paused on => exact .inl (.inl ⟨rfl, rfl, rfl⟩)
  | claimed t ready l e _ hr =>
    obtain rfl : t = id := Option.some.inj hs
    simp only [advance, if_true]
    exact .inr (.grant l ((h.holds t).place_ready (by rw [hr]; exact List.mem_cons_self)))
  | beat t l e _ =>
    obtain rfl : t = id := Option.some.inj hs
    exact .inl (.inr ⟨⟨l, e, rfl⟩, rfl⟩)
  | acked t l hl =>
    obtain rfl : t = id := Option.some.inj hs
    simp only [advance, if_true]
    exact .inr (.finish ((h.holds t).place_leased hl))
  | failed t l now base cap _ hl =>
    obtain rfl : t = id := Option.some.inj hs
    have hp := (h.holds t).place_leased hl
    obtain ⟨_, -, -, hlast, -⟩ := (h.holds t).retry hp now base cap
    simp only [advance, if_true, decide_eq_decide.mpr hlast]
    exact .inr (.fail hp)
  | reclaimed t e now base cap he _ =>
    obtain rfl : t = id := Option.some.inj hs
    obtain ⟨l, hp⟩ := (h.holds t).inflight.mp (by rw [he]; rfl)
    obtain ⟨_, -, -, hlast, -⟩ := (h.holds t).retry hp now base cap
    simp only [advance, if_true, decide_eq_decide.mpr hlast]
    exact .inr (.fail hp)
  | promoted t score now hs' _ =>
    obtain rfl : t = id := Option.some.inj hs
    simp only [advance, if_true]
    exact .inr (.promote ((h.holds t).place_waiting hs'))
  | materialized _ _ _ _ => exact hok.elim
  | requeued _ => exact hok.elim
  | deleted _ => exact hok.elim
  | wiped => exact hok.elim

/-- The job alone: one move or none. -/
theorem Refines.job_move {r r' : Redis Body} {log : List Event} {ev : Event}
    (h : Refines r log) (hok : CoreOk log ev) (heff : Effect r ev r') (id : String) :
    jobOf (ev :: log) id = jobOf log id ∨ (jobOf log id).Step (jobOf (ev :: log) id) := by
  rcases h.job_step hok heff id with (hq | ⟨-, hq⟩) | hs
  · exact .inl hq.job
  · exact .inl hq
  · exact .inr hs

/-- A core call keeps the refinement. -/
theorem Refines.exec {e : Engine Body} (h : Refines e.redis e.log) {c : Call Body}
    (hc : CoreCall e c) : Refines (e.exec c).redis (e.exec c).log :=
  (Redis.after_trace e.redis c.now c.op).invariant
    (fun _ _ _ _ hok heff hr => hr.effect hok heff) e.log hc.allowed h

/-- **Run.** From a state on, the job of every task goes along a path of its life. -/
theorem Refines.job_path {e e' : Engine Body} {cs : List (Call Body)}
    (h : Refines e.redis e.log) (hrun : EngineRun CoreCall e cs e') (id : String) :
    (jobOf e.log id).Path (jobOf e'.log id) := by
  have hstep : ∀ (r : Redis Body) log ev r', CoreOk log ev → Effect r ev r' →
      Refines r log ∧ (jobOf e.log id).Path (jobOf log id) →
      Refines r' (ev :: log) ∧ (jobOf e.log id).Path (jobOf (ev :: log) id) := by
    rintro r log ev r' hok heff ⟨href, hpath⟩
    refine ⟨href.effect hok heff, ?_⟩
    rcases href.job_move hok heff id with heq | hs
    · rw [heq]
      exact hpath
    · exact hpath.tail hs
  exact (EngineRun.invariant
    (fun r log => Refines r log ∧ (jobOf e.log id).Path (jobOf log id))
    (fun _ _ hok => hok.allowed) hstep hrun ⟨h, .refl⟩).2

/-- A call that does not renew the lease of a task is nothing to it or makes it older. -/
theorem Refines.exec_still {e : Engine Body} (h : Refines e.redis e.log) {c : Call Body}
    (hc : CoreCall e c) {id : String} (hborn : (jobOf e.log id).place ≠ .absent)
    (hbeat : ∀ l x, .beat id l x ∉ e.redis.events c.now c.op) :
    Still id e.redis e.log (e.exec c).redis (e.exec c).log ∨
      (jobOf e.log id).age < (jobOf (e.exec c).log id).age := by
  have hall : Allowed (fun log ev => CoreOk log ev ∧ ∀ l x, ev ≠ .beat id l x) e.log
      (e.redis.events c.now c.op) := by
    refine hc.allowed.and ?_
    rintro ev hev l x rfl
    exact hbeat l x hev
  have hstep : ∀ (r : Redis Body) log ev r',
      (CoreOk log ev ∧ ∀ l x, ev ≠ .beat id l x) → Effect r ev r' →
      (Refines r log ∧ (jobOf log id).place ≠ .absent) ∧
        (Still id e.redis e.log r log ∨ (jobOf e.log id).age < (jobOf log id).age) →
      (Refines r' (ev :: log) ∧ (jobOf (ev :: log) id).place ≠ .absent) ∧
        (Still id e.redis e.log r' (ev :: log) ∨
          (jobOf e.log id).age < (jobOf (ev :: log) id).age) := by
    rintro r log ev r' ⟨hok, hne⟩ heff ⟨⟨href, hp⟩, hor⟩
    rcases href.job_step hok heff id with (hq' | ⟨⟨l, x, hb⟩, -⟩) | hs
    · refine ⟨⟨href.effect hok heff, hq'.job ▸ hp⟩, ?_⟩
      rcases hor with hq | hlt
      · exact .inl (hq.trans hq')
      · exact .inr (hq'.job ▸ hlt)
    · exact absurd hb (hne l x)
    · refine ⟨⟨href.effect hok heff, hs.born⟩, .inr ?_⟩
      rcases hor with hq | hlt
      · exact hq.job ▸ hs.age_lt hp
      · exact hlt.trans (hs.age_lt hp)
  exact ((Redis.after_trace e.redis c.now c.op).invariant hstep e.log hall
    ⟨⟨h, hborn⟩, .inl ⟨rfl, rfl, rfl⟩⟩).2

end ForgeQueue
