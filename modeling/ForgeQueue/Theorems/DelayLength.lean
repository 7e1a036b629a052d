import ForgeQueue.Model.Engine
import ForgeQueue.Model.JsonBody
import Mathlib.Data.Rat.Floor
import Mathlib.Tactic.Linarith

/-!
# How long a delayed task waits

The gateway adds the delay to the whole seconds of its clock, and `promoteTask` compares
the sum with Redis's clock in microseconds. What the gateway drops, the part of the second
that had passed when the task was accepted, is missing from the wait. The sum is one of 64
bits and the score a double, which only matters for delays of hundreds of millions of years.
-/

namespace ForgeQueue

open Base

variable {Body : Type}

/-- The calls of any number of promotion loops, as the server sees them: at which time, for
which task. -/
def promoteAll (calls : List (ℚ × String)) (r : Redis Body) : Redis Body :=
  calls.foldl (fun r c => (promoteTask c.1 c.2 r).1) r

/-- The task waits for `score` and is not ready. -/
structure WaitsFor (r : Redis Body) (id : String) (score : ℚ) : Prop where
  scheduled : r.scheduled id = some score
  not_ready : id ∉ r.immediate

/-- **Step.** A promotion before the score leaves the task waiting, whichever task it is
for. -/
theorem WaitsFor.promoteTask {r : Redis Body} {id : String} {score : ℚ} (h : WaitsFor r id score)
    {now : ℚ} (hnow : now < score) (other : String) :
    WaitsFor (promoteTask now other r).1 id score := by
  by_cases hid : other = id
  · subst hid
    rw [ForgeQueue.promoteTask, h.scheduled]
    simp only [if_pos hnow]
    exact h
  · unfold ForgeQueue.promoteTask
    cases hs : r.scheduled other with
    | none => exact h
    | some due =>
      by_cases hlt : now < due
      · simp only [if_pos hlt]
        exact h
      · simp only [if_neg hlt]
        refine ⟨(del_of_ne _ (Ne.symm hid)).trans h.scheduled, ?_⟩
        exact List.not_mem_cons_of_ne_of_not_mem (Ne.symm hid) h.not_ready

/-- **Run.** -/
theorem WaitsFor.promoteAll {id : String} {score : ℚ} (calls : List (ℚ × String)) :
    ∀ r : Redis Body, WaitsFor r id score → (∀ c ∈ calls, c.1 < score) →
      WaitsFor (promoteAll calls r) id score := by
  induction calls with
  | nil => exact fun _ h _ => h
  | cons c calls ih =>
    intro r h hlt
    refine ih _ (h.promoteTask (hlt c List.mem_cons_self) c.2) ?_
    exact fun c' hc' => hlt c' (List.mem_cons_of_mem _ hc')

variable [BodyCodec Body]

/-- What `RouteTask` writes to Redis at time `t`, by a clock that agrees with Redis's. -/
def acceptedAt (t : ℚ) (a : RouteArgs) (r : Redis Body) : Redis Body :=
  (r.after t (.routeBody a)).after t (.routePush a t)

/-- The delay is not cut short: whatever else is in Redis, no promotion loop moves the task
to the ready list before the delay has passed. -/
def DelayKept (Body : Type) [BodyCodec Body] (t : ℚ) (a : RouteArgs) : Prop :=
  ∀ (r : Redis Body) (calls : List (ℚ × String)), a.id ∉ r.immediate →
    (t :: calls.map Prod.fst).Pairwise (· ≤ ·) →
    (∀ c ∈ calls, c.1 < t + a.delaySeconds.toInt) →
    a.id ∉ (promoteAll calls (acceptedAt t a r)).immediate

/-- The score of a delayed task. -/
def delayScore (t : ℚ) (a : RouteArgs) : ℚ := toDouble ((targetTime t a).toInt : ℚ)

/-- A delayed task waits for its score. -/
theorem acceptedAt_waits {t : ℚ} {a : RouteArgs} (ha : 0 < a.delaySeconds) {r : Redis Body}
    (hr : a.id ∉ r.immediate) : WaitsFor (acceptedAt t a r) a.id (delayScore t a) := by
  have htarget : routeTarget t a = some (delayScore t a) := if_pos ha
  simp only [acceptedAt, Redis.after, htarget, routePush]
  exact ⟨put_self _ _ _, hr⟩

/-- A delay is kept exactly when it has passed by the score. -/
theorem delayKept_iff_score {t : ℚ} {a : RouteArgs} (ha : 0 < a.delaySeconds) :
    DelayKept Body t a ↔ t + a.delaySeconds.toInt ≤ delayScore t a := by
  have hdelay : (0 : ℚ) < a.delaySeconds.toInt := by
    exact_mod_cast Int64.lt_iff_toInt_lt.mp ha
  constructor
  · intro hkept
    by_contra hlt
    rw [not_le] at hlt
    -- a promotion loop that comes by at the score finds the task due
    have hwaits : WaitsFor (acceptedAt t a (.empty : Redis Body)) a.id (delayScore t a) :=
      acceptedAt_waits ha List.not_mem_nil
    refine hkept .empty [(max t (delayScore t a), a.id)] List.not_mem_nil ?_ ?_ ?_
    · simp
    · intro c hc
      rw [List.mem_singleton.mp hc]
      exact max_lt (by linarith) hlt
    · simp [promoteAll, promoteTask, hwaits.scheduled]
  · intro hle r calls hr _ hearly
    refine ((acceptedAt_waits ha hr).promoteAll calls _ ?_).not_ready
    exact fun c hc => (hearly c hc).trans_le hle

/-! ## When the delay has passed by the score -/

/-- The second in which the delay ends, counted without bounds. -/
def dueSecond (t : ℚ) (a : RouteArgs) : ℤ := t.floor + a.delaySeconds.toInt

/-- The due second is one of 64 bits, and it is rounded up to a double, or it is a double and
the task was accepted on a whole second. -/
def DueOnTime (t : ℚ) (a : RouteArgs) : Prop :=
  dueSecond t a < 2 ^ 63 ∧ ((dueSecond t a : ℚ) < toDouble (dueSecond t a : ℚ) ∨
    toDouble (dueSecond t a : ℚ) = dueSecond t a ∧ (t.floor : ℚ) = t)

instance (t : ℚ) (a : RouteArgs) : Decidable (DueOnTime t a) := inferInstanceAs (Decidable (_ ∧ _))

/-- Up to `2 ^ 53` every second is a double, and the clock alone decides. -/
theorem dueOnTime_iff_whole {t : ℚ} {a : RouteArgs} (hpos : 0 ≤ dueSecond t a)
    (hsmall : dueSecond t a ≤ 2 ^ 53) : DueOnTime t a ↔ (t.floor : ℚ) = t := by
  have hexact : toDouble (dueSecond t a : ℚ) = dueSecond t a :=
    nearest_intCast (by decide) hpos hsmall
  have hrange : dueSecond t a < 2 ^ 63 := hsmall.trans_lt (by decide)
  rw [DueOnTime, hexact]
  constructor
  · rintro ⟨-, hup | ⟨-, hwhole⟩⟩
    · exact absurd hup (lt_irrefl _)
    · exact hwhole
  · exact fun hwhole => ⟨hrange, .inr ⟨rfl, hwhole⟩⟩

/-- The sum of 64 bits is the due second, if that is one of 64 bits. -/
theorem targetTime_eq {t : ℚ} {a : RouteArgs} (ha : 0 < a.delaySeconds)
    (hlow : -2 ^ 63 ≤ t.floor) (hhigh : t.floor < 2 ^ 63) :
    dueSecond t a < 2 ^ 63 ∧ (targetTime t a).toInt = dueSecond t a ∨
      2 ^ 63 ≤ dueSecond t a ∧ (targetTime t a).toInt ≤ 0 := by
  have hdelay : 0 < a.delaySeconds.toInt := Int64.lt_iff_toInt_lt.mp ha
  have hmax := a.delaySeconds.toInt_lt
  have hsum : (targetTime t a).toInt = (dueSecond t a).bmod (2 ^ 64) := by
    rw [targetTime, Int64.toInt_add, Int64.toInt_ofInt_of_le hlow hhigh]
    rfl
  rw [hsum]
  unfold dueSecond
  rcases lt_or_ge (t.floor + a.delaySeconds.toInt) (2 ^ 63) with hfits | hwraps
  · exact .inl ⟨hfits, Int.bmod_eq_of_le (by omega) (by omega)⟩
  · refine .inr ⟨hwraps, ?_⟩
    rw [Int.bmod_def]
    omega

/-- **A delay is kept exactly when the task was accepted on a whole second**, up to `2 ^ 53`
(`dueOnTime_iff_whole`); beyond that the due second is rounded to a double too, and one that does
not fit 64 bits is in the past. Everywhere else the delay is cut short. The clock of the
gateway counts its seconds in 64 bits. -/
theorem delay_kept_iff_whole_second (t : ℚ) (a : RouteArgs) (ha : 0 < a.delaySeconds)
    (hlow : -2 ^ 63 ≤ t.floor) (hhigh : t.floor < 2 ^ 63) :
    DelayKept Body t a ↔ DueOnTime t a := by
  have hfloor : (t.floor : ℚ) ≤ t := Int.floor_le t
  have hceil : t < t.floor + 1 := Int.lt_floor_add_one t
  have hdue : (dueSecond t a : ℚ) = t.floor + a.delaySeconds.toInt := by
    rw [dueSecond, Int.cast_add]
  rw [delayKept_iff_score ha, delayScore, DueOnTime]
  rcases targetTime_eq ha hlow hhigh with ⟨hfits, heq⟩ | ⟨hwraps, hpast⟩
  · obtain ⟨m, hm⟩ := exists_nearest_intCast (K := ℚ) 53 (dueSecond t a)
    rw [heq, toDouble, hm, Int.cast_lt, Int.cast_inj]
    constructor
    · intro hle
      refine ⟨hfits, ?_⟩
      have hge : dueSecond t a ≤ m := by
        have hreal : (dueSecond t a : ℚ) ≤ m := by rw [hdue]; linarith
        exact_mod_cast hreal
      refine hge.lt_or_eq.imp_right fun hsame => ⟨hsame.symm, ?_⟩
      rw [← hsame, hdue] at hle
      linarith
    · rintro ⟨-, hup | ⟨rfl, hwhole⟩⟩
      · have hnext : (dueSecond t a : ℚ) + 1 ≤ m := by exact_mod_cast hup
        rw [hdue] at hnext
        linarith
      · rw [hdue]
        linarith
  · -- the sum has wrapped around, and the task is overdue
    have hscore : toDouble ((targetTime t a).toInt : ℚ) ≤ 0 :=
      nearest_nonpos (by exact_mod_cast hpast)
    have hlate : ((2 ^ 63 : ℤ) : ℚ) ≤ dueSecond t a := by exact_mod_cast hwraps
    rw [hdue] at hlate
    push_cast at hlate
    constructor
    · intro hle
      linarith
    · rintro ⟨hfits, -⟩
      omega

/-- A task that is to wait for a second. -/
def oneSecondArgs : RouteArgs := { sampleArgs with delaySeconds := 1 }

theorem delay_kept_iff_whole_second_five : DelayKept JsonBody 5 oneSecondArgs :=
  (delay_kept_iff_whole_second 5 oneSecondArgs (by decide) (by decide +kernel)
    (by decide +kernel)).mpr (by decide +kernel)

/-- Accepted half a second past, it is ready after half a second. -/
theorem delay_kept_half_second_late :
    ¬ ∀ (t : ℚ) (a : RouteArgs), 0 < a.delaySeconds → DelayKept JsonBody t a := by
  intro hall
  have hkept := hall (1 / 2) oneSecondArgs (by decide) .empty [(1, "job")]
  revert hkept
  decide +kernel

end ForgeQueue
