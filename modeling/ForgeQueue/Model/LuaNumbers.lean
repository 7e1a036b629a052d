import ForgeQueue.Base.Double
import ForgeQueue.Model.Redis
import Mathlib.Data.Rat.Floor

/-!
# The retry script on Lua numbers

`retryOrBury` counts in exact numbers. The numbers of Lua are doubles, and the counter of a
stored body can be any of them. Two things differ: the new count is rounded, and the loop
variable of the backoff, which is stepped by one, gets stuck at `2 ^ 53`. A loop whose bound
is that large does not end, and the script, which has released the lease and rewritten the
body by then, never schedules the task.

Below `2 ^ 53` whole counts are exact and the loop ends with `scriptBackoff`, so that the two
versions agree (`requeueOrDeadLua_eq`). Doubling is exact on doubles; a delay that overflows is
infinite there, and the cap applies to it all the same. A count beyond the doubles stands for an
infinity, which `cjson` refuses to write: that is a `cjsonEncode` without a result.
-/

namespace ForgeQueue

open Base

/-! ## The loop -/

/-- `while i <= attempts do delay = delay * 2; i = i + 1 end` from some turn on; `none` when it
is not done after `fuel` tests of its condition. -/
def luaLoop (attempts : ℚ) : ℕ → ℚ → ℚ → Option ℚ
  | 0, _, _ => none
  | fuel + 1, i, delay =>
    if i ≤ attempts then luaLoop attempts fuel (toDouble (i + 1)) (delay * 2) else some delay

/-- The loop ends. -/
def LoopEnds (attempts base : ℚ) : Prop := ∃ fuel, (luaLoop attempts fuel 2 base).isSome

/-- The next turn. -/
theorem toDouble_succ {i : ℤ} (hlow : 0 ≤ i) (hi : i < 2 ^ 53) :
    toDouble ((i : ℚ) + 1) = ((i + 1 : ℤ) : ℚ) := by
  have hcast : (i : ℚ) + 1 = ((i + 1 : ℤ) : ℚ) := by push_cast; rfl
  rw [hcast]
  exact nearest_intCast (by decide) (by omega) (by omega)

/-- Below `2 ^ 53` the loop ends after one turn for each count that is left. -/
theorem luaLoop_eq {attempts : ℚ} (hbound : attempts < 2 ^ 53) (n : ℕ) :
    ∀ (i : ℤ) (delay : ℚ), 0 ≤ i → (attempts.floor + 1 - i).toNat = n →
      luaLoop attempts (n + 1) i delay = some (doubling n delay) := by
  have hfloor : attempts.floor < 2 ^ 53 := Int.floor_lt.mpr hbound
  induction n with
  | zero =>
    intro i delay _ hn
    have hstop : ¬ (i : ℚ) ≤ attempts := by
      rw [not_le]
      exact Int.floor_lt.mp (show attempts.floor < i by omega)
    rw [luaLoop, if_neg hstop]
    rfl
  | succ n ih =>
    intro i delay hlow hn
    have hle : i ≤ attempts.floor := by omega
    have hgo : (i : ℚ) ≤ attempts := Int.le_floor.mp hle
    rw [luaLoop, if_pos hgo, toDouble_succ hlow (by omega), doubling]
    exact ih (i + 1) (delay * 2) (by omega) (by omega)

/-- From `2 ^ 53` on it does not: the loop variable never passes `2 ^ 53`. -/
theorem luaLoop_stuck {attempts : ℚ} (hbound : 2 ^ 53 ≤ attempts) (fuel : ℕ) :
    ∀ (i : ℤ) (delay : ℚ), 0 ≤ i → i ≤ 2 ^ 53 → luaLoop attempts fuel i delay = none := by
  induction fuel with
  | zero => exact fun _ _ _ _ => rfl
  | succ fuel ih =>
    intro i delay hlow hi
    have hgo : (i : ℚ) ≤ attempts := by
      refine le_trans ?_ hbound
      exact_mod_cast hi
    rw [luaLoop, if_pos hgo]
    rcases hi.lt_or_eq with hlt | rfl
    · rw [toDouble_succ hlow hlt]
      exact ih (i + 1) _ (by omega) (by omega)
    · rw [toDouble, nearest_pow_add_one (by decide)]
      exact ih _ _ hlow le_rfl

theorem loopEnds_iff {attempts base : ℚ} : LoopEnds attempts base ↔ attempts < 2 ^ 53 := by
  constructor
  · rintro ⟨fuel, h⟩
    by_contra hbig
    have hstuck := luaLoop_stuck (not_lt.mp hbig) fuel 2 base (by decide) (by decide)
    rw [Int.cast_ofNat] at hstuck
    rw [hstuck] at h
    cases h
  · intro hbound
    have hends := luaLoop_eq hbound _ 2 base (by decide) rfl
    rw [Int.cast_ofNat] at hends
    exact ⟨_, Option.isSome_of_eq_some hends⟩

/-- A loop that ends has computed the delay of `scriptBackoff`, up to the cap. -/
theorem LoopEnds.result {attempts base : ℚ} (h : LoopEnds attempts base) :
    luaLoop attempts ((attempts.floor - 1).toNat + 1) 2 base =
      some (doubling (attempts.floor - 1).toNat base) := by
  have hends := luaLoop_eq (loopEnds_iff.mp h) (attempts.floor - 1).toNat 2 base (by decide)
    (by omega)
  rwa [Int.cast_ofNat] at hends

instance (attempts base : ℚ) : Decidable (LoopEnds attempts base) :=
  decidable_of_iff _ loopEnds_iff.symm

/-! ## The script -/

variable {Body : Type} [BodyCodec Body]

/-- The script's second half. No reply is an error raised by then, or a loop that does not
end. -/
def retryOrBuryLua (now base cap : ℚ) (taskID : String) (r : Redis Body) :
    Redis Body × Option RequeueStatus :=
  match r.task taskID with
  | none => (r, some .noBody)
  | some body =>
    match cjsonDecode body with
    | none => ({ r with dead := body :: r.dead }, some .dead)
    | some task =>
      if task.isTable = false then ({ r with dead := body :: r.dead }, some .dead)
      else
        match luaArith Body (task.field "attempts") with
        | none => (r, none)
        | some counter =>
          let attempts := toDouble (counter + 1)
          let task := task.setField "attempts" (.num attempts)
          match (cjsonEncode task : Option Body) with
          | none => (r, none)
          | some newBody =>
            let r := { r with task := put r.task taskID newBody }
            match luaCompare (task.field "max_retries") with
            | none => (r, none)
            | some maxRetries =>
              if 0 < maxRetries ∧ maxRetries ≤ attempts then
                ({ r with dead := newBody :: r.dead }, some .dead)
              else if LoopEnds attempts base then
                let retryAt := now + scriptBackoff attempts base cap
                ({ r with scheduled := put r.scheduled taskID retryAt }, some .scheduled)
              else (r, none)

@[inherit_doc requeueOrDead]
def requeueOrDeadLua (now base cap : ℚ) (taskID leaseID : String) (r : Redis Body) :
    Redis Body × Option RequeueStatus :=
  match requeueGuard now taskID leaseID r with
  | some status => (r, some status)
  | none => retryOrBuryLua now base cap taskID (r.release taskID)

/-- The counter of the body can be bumped without rounding, and the loop ends then. -/
def Exact (body : Body) : Prop :=
  ∀ task counter, cjsonDecode body = some task →
    luaArith Body (task.field "attempts") = some counter →
    toDouble (counter + 1) = counter + 1 ∧ counter + 1 < 2 ^ 53

/-- On such a body the script does what `requeueOrDead` says. -/
theorem requeueOrDeadLua_eq {now base cap : ℚ} {id leaseID : String} {r : Redis Body}
    (h : ∀ body ∈ r.task id, Exact body) :
    requeueOrDeadLua now base cap id leaseID r = requeueOrDead now base cap id leaseID r := by
  unfold requeueOrDeadLua requeueOrDead
  cases requeueGuard now id leaseID r with
  | some status => rfl
  | none =>
    dsimp only
    unfold retryOrBuryLua retryOrBury
    have htask : (r.release id).task id = r.task id := rfl
    rw [htask]
    cases hb : r.task id with
    | none => rfl
    | some body =>
      dsimp only
      cases hd : cjsonDecode body with
      | none => rfl
      | some task =>
        dsimp only
        split
        · rfl
        cases ha : luaArith Body (task.field "attempts") with
        | none => rfl
        | some counter =>
          obtain ⟨hround, hbound⟩ := h body hb task counter hd ha
          have hends : LoopEnds (counter + 1) base := loopEnds_iff.mpr hbound
          dsimp only
          rw [hround]
          cases (cjsonEncode (task.setField "attempts" (.num (counter + 1))) : Option Body) with
          | none => rfl
          | some newBody =>
            dsimp only
            cases luaCompare
                ((task.setField "attempts" (.num (counter + 1))).field "max_retries") with
            | none => rfl
            | some maxRetries => rw [if_pos hends]

/-- The bodies of tasks, as long as their counters are below `2 ^ 53`. -/
theorem IsDoc.exact {body : Body} {t : ModelTask} (h : IsDoc body t) (hlow : 0 ≤ t.attempts)
    (hbound : t.attempts + 1 < 2 ^ 53) : Exact body := by
  intro task counter htask hcounter
  obtain rfl := Option.some.inj (h.lua.symm.trans htask)
  rw [taskTable_attempts] at hcounter
  obtain rfl : (t.attempts : ℚ) = counter := Option.some.inj hcounter
  rw [toDouble_succ hlow (by omega)]
  refine ⟨by push_cast; rfl, ?_⟩
  exact_mod_cast hbound

/-- So the script and `requeueOrDead` agree on every task whose record has such a counter. -/
theorem requeueOrDeadLua_doc {now base cap : ℚ} {id leaseID : String} {r : Redis Body}
    (h : ∀ body ∈ r.task id,
      ∃ t : ModelTask, IsDoc body t ∧ 0 ≤ t.attempts ∧ t.attempts + 1 < 2 ^ 53) :
    requeueOrDeadLua now base cap id leaseID r = requeueOrDead now base cap id leaseID r := by
  refine requeueOrDeadLua_eq fun body hbody => ?_
  obtain ⟨t, hdoc, hlow, hbound⟩ := h body hbody
  exact hdoc.exact hlow hbound

end ForgeQueue
