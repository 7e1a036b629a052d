import ForgeQueue.Logic.Lifecycle
import ForgeQueue.Model.JsonBody

/-!
# No loss, no duplication

The exactly-one-place invariant of the core engine: an enqueued task is once in the
ready list, or in flight, or scheduled, or once in the dead list, or acknowledged,
and never in two of these.
-/

namespace ForgeQueue

open Base

/-- Some `ackBatch` returned the task. -/
def wasAcked (log : List Event) (id : String) : Bool :=
  log.any fun ev => match ev with
    | .acked t _ => t == id
    | _ => false

theorem wasAcked_iff (log : List Event) (id : String) :
    wasAcked log id = true ↔ ∃ l, .acked id l ∈ log := by
  unfold wasAcked
  rw [List.any_eq_true]
  constructor
  · rintro ⟨ev, hev, h⟩
    cases ev with
    | acked t l =>
      obtain rfl : t = id := by simpa using h
      exact ⟨l, hev⟩
    | _ => cases h
  · rintro ⟨l, hl⟩
    exact ⟨_, hl, by simp⟩

section

variable {Body : Type} [BodyCodec Body]

/-- How often a task is found: its copies in the ready list, its entries in the two
sorted sets, its bodies in the dead list, its acknowledgement. -/
def Engine.occurrences (e : Engine Body) (id : String) : ℕ :=
  e.redis.immediate.count id
    + (if (e.redis.inflight id).isSome then 1 else 0)
    + (if (e.redis.scheduled id).isSome then 1 else 0)
    + e.redis.dead.countP (deadOf id)
    + (if wasAcked e.log id then 1 else 0)

end

variable {Body : Type} [TaskCodec Body]

/-- Under the refinement a task is found once if it was enqueued, else nowhere. -/
theorem Refines.occurrences {e : Engine Body} (h : Refines e.redis e.log) (id : String) :
    e.occurrences id = if (jobOf e.log id).place = .absent then 0 else 1 := by
  have hh := h.holds id
  have hack : wasAcked e.log id = true ↔ (jobOf e.log id).place = .finished :=
    (wasAcked_iff e.log id).trans (h.acked id).symm
  have hinfl := hh.inflight
  have hsched := hh.scheduled
  unfold Engine.occurrences
  rw [hh.ready, hh.dead]
  cases hp : (jobOf e.log id).place <;> simp_all

/-- **Exactly one place.** In every run of the core engine, every task whose second
enqueue write happened is found in exactly one place, once, and whenever that place
is the ready list, the inflight set or the scheduled set its body exists. -/
theorem enqueued_in_exactly_one_place {cs : List (Call Body)} {e : Engine Body}
    (hrun : EngineRun CoreCall .init cs e) {a : RouteArgs} (henq : .enqueued a ∈ e.log) :
    e.occurrences a.id = 1 ∧ (e.redis.Live a.id → (e.redis.task a.id).isSome) := by
  have href := core_refines hrun
  have hborn : (jobOf e.log a.id).place ≠ .absent := (href.born a.id).mpr ⟨a, henq, rfl⟩
  refine ⟨by rw [href.occurrences, if_neg hborn], ?_⟩
  intro hlive
  have hh := href.holds a.id
  have hfin : (jobOf e.log a.id).place ≠ .finished := by
    intro hf
    rcases hlive with hm | hi | hs
    · rw [hh.place_ready hm] at hf; cases hf
    · obtain ⟨l, hl⟩ := hh.inflight.mp hi
      rw [hl] at hf; cases hf
    · rw [hh.scheduled.mp hs] at hf; cases hf
  obtain ⟨b, t, hb, -⟩ := hh.body hborn hfin
  rw [hb]
  rfl

/-- The task is claimed, loses its lease to a recovery loop and is promoted. -/
def recoveryCalls : List (Call JsonBody) :=
  [⟨0, .routeBody sampleArgs⟩, ⟨0, .routePush sampleArgs 0⟩,
    ⟨1, .claimBatch ["L1", "L2"] 31⟩, ⟨40, .requeueOrDead "job" "" 1 60⟩,
    ⟨41, .promoteTask "job"⟩]

/-- The calls are those of the core engine. -/
theorem recoveryCalls_run :
    EngineRun CoreCall .init recoveryCalls (Engine.init.execAll recoveryCalls) :=
  core_run_enqueue (.cons trivial rfl (.cons trivial rfl (.cons trivial rfl .nil)))

/-- After a recovery and a promotion the task is found once, in the ready list. -/
theorem enqueued_in_exactly_one_place_after_recovery :
    (Engine.init.execAll recoveryCalls).redis.immediate = ["job"] ∧
      (Engine.init.execAll recoveryCalls).occurrences sampleArgs.id = 1 := by
  have henq : .enqueued sampleArgs ∈ (Engine.init.execAll recoveryCalls).log := by
    decide +kernel
  exact ⟨by decide +kernel, (enqueued_in_exactly_one_place recoveryCalls_run henq).1⟩

end ForgeQueue
