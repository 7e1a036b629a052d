import ForgeQueue.Base.Level
import ForgeQueue.Model.RateLimit
import Mathlib.Tactic.NormNum

/-!
# Levels of the rate limiter

The level of a key is what its bucket would hold if it were refilled now; a key without a
bucket is at the burst. A call reads nothing but the level of its key (`allow_cases`): it is
allowed if that is at least one, and takes one from it. Nothing else lowers a level, time
raises it by no more than the rate, and a sweep only drops buckets that are full by now, so
it changes no level (`allow_spec`).
-/

namespace ForgeQueue

open Base

/-- What every limiter has: `newRateLimiter` replaces what is not positive. -/
structure RateLimiter.Positive (l : RateLimiter) : Prop where
  rate_pos : 0 < l.rate
  burst_pos : 0 < l.burst

/-- The parameters: a bucket fills up within the ten minutes after which it may be swept. -/
structure RateLimiter.Rated (l : RateLimiter) : Prop where
  rate_pos : 0 < l.rate
  burst_ge : 1 ≤ l.burst
  fills : l.burst ≤ l.rate * 600

/-- Every bucket holds between nothing and the burst, and was last used in the past. -/
structure RateLimiter.InBounds (l : RateLimiter) (now : ℚ) : Prop where
  tokens : ∀ key b, l.get key = some b → 0 ≤ b.tokens ∧ b.tokens ≤ l.burst
  past : ∀ key b, l.get key = some b → b.last ≤ now

/-- The level of a key at a time. -/
def RateLimiter.levelAt (l : RateLimiter) (key : String) (t : ℚ) : ℚ :=
  match l.get key with
  | none => l.burst
  | some b => level l.burst l.rate b.tokens b.last t

variable {l : RateLimiter} {now t t' : ℚ} {key : String}

theorem RateLimiter.Rated.positive (hl : l.Rated) : l.Positive :=
  ⟨hl.rate_pos, lt_of_lt_of_le one_pos hl.burst_ge⟩

theorem RateLimiter.Rated.congr {l' : RateLimiter} (hl : l.Rated) (hrate : l'.rate = l.rate)
    (hburst : l'.burst = l.burst) : l'.Rated := by
  constructor
  · rw [hrate]
    exact hl.rate_pos
  · rw [hburst]
    exact hl.burst_ge
  · rw [hrate, hburst]
    exact hl.fills

theorem RateLimiter.Positive.congr {l' : RateLimiter} (hl : l.Positive)
    (hrate : l'.rate = l.rate) (hburst : l'.burst = l.burst) : l'.Positive := by
  constructor
  · rw [hrate]
    exact hl.rate_pos
  · rw [hburst]
    exact hl.burst_pos

theorem newRateLimiter_positive (ratePerSecond burst : ℚ) :
    (newRateLimiter ratePerSecond burst).Positive := by
  constructor
  · show 0 < if ratePerSecond ≤ 0 then (1 / 5 : ℚ) else ratePerSecond
    split
    · norm_num
    · next h => exact not_le.mp h
  · show 0 < if burst ≤ 0 then (10 : ℚ) else burst
    split
    · norm_num
    · next h => exact not_le.mp h

theorem newRateLimiter_inBounds (ratePerSecond burst t : ℚ) :
    (newRateLimiter ratePerSecond burst).InBounds t := by
  constructor <;> simp [newRateLimiter, RateLimiter.get]

section NewLimiter

variable {rate burst : ℚ} (hrate : 0 < rate) (hburst : 1 ≤ burst) (hfills : burst ≤ rate * 600)

include hrate in
theorem newRateLimiter_rate : (newRateLimiter rate burst).rate = rate :=
  if_neg (not_le.mpr hrate)

include hburst in
theorem newRateLimiter_burst : (newRateLimiter rate burst).burst = burst :=
  if_neg (by linarith)

include hrate hburst hfills in
theorem newRateLimiter_rated : (newRateLimiter rate burst).Rated := by
  constructor
  · rwa [newRateLimiter_rate hrate]
  · rwa [newRateLimiter_burst hburst]
  · rwa [newRateLimiter_rate hrate, newRateLimiter_burst hburst]

end NewLimiter

/-- Both limiters of the server. -/
theorem login_limiters_rated : loginGlobal.Rated ∧ loginIP.Rated :=
  ⟨newRateLimiter_rated (by norm_num) (by norm_num) (by norm_num),
    newRateLimiter_rated (by norm_num) (by norm_num) (by norm_num)⟩

theorem RateLimiter.InBounds.mono (h : l.InBounds t) (ht : t ≤ t') : l.InBounds t' :=
  ⟨h.tokens, fun key b hb => (h.past key b hb).trans ht⟩

/-! ## Levels and time -/

theorem levelAt_le_burst (l : RateLimiter) (key : String) (t : ℚ) :
    l.levelAt key t ≤ l.burst := by
  unfold RateLimiter.levelAt
  split
  · exact le_refl _
  · exact level_le_cap

theorem RateLimiter.InBounds.levelAt_nonneg (h : l.InBounds t) (hl : l.Positive)
    (key : String) : 0 ≤ l.levelAt key t := by
  unfold RateLimiter.levelAt
  split
  · exact hl.burst_pos.le
  · next b hb =>
    exact level_nonneg hl.burst_pos.le hl.rate_pos.le (h.tokens key b hb).1 (h.past key b hb)

theorem RateLimiter.Positive.levelAt_mono (hl : l.Positive) (key : String) (ht : t ≤ t') :
    l.levelAt key t ≤ l.levelAt key t' := by
  unfold RateLimiter.levelAt
  split
  · exact le_refl _
  · exact level_mono hl.rate_pos.le ht

theorem RateLimiter.Positive.levelAt_le_add (hl : l.Positive) (key : String) (ht : t ≤ t') :
    l.levelAt key t' ≤ l.levelAt key t + (t' - t) * l.rate := by
  have hflow : 0 ≤ (t' - t) * l.rate := mul_nonneg (sub_nonneg.mpr ht) hl.rate_pos.le
  unfold RateLimiter.levelAt
  split
  · linarith
  · exact level_le_add hl.rate_pos.le ht

/-- A later level depends on the level now and on nothing else. -/
theorem RateLimiter.Positive.levelAt_later (hl : l.Positive) (key : String) (ht : t ≤ t') :
    l.levelAt key t' = level l.burst l.rate (l.levelAt key t) t t' := by
  unfold RateLimiter.levelAt
  split
  · exact (level_cap hl.rate_pos.le ht).symm
  · exact (level_level hl.rate_pos.le ht).symm

/-! ## One call -/

/-- The refill brings the bucket to its level. -/
theorem RateLimiter.InBounds.refill_eq (h : l.InBounds now) (key : String) :
    l.refill now ((l.get key).getD ⟨l.burst, now⟩) = ⟨l.levelAt key now, now⟩ := by
  unfold RateLimiter.levelAt RateLimiter.refill
  cases hget : l.get key with
  | none => simp
  | some b =>
    have hmax := (h.tokens key b hget).2
    have hpast := h.past key b hget
    simp only [Option.getD_some]
    by_cases helapsed : 0 < now - b.last
    · rw [if_pos helapsed, level]
      by_cases hfull : l.burst < b.tokens + (now - b.last) * l.rate
      · rw [if_pos hfull, min_eq_left hfull.le]
      · rw [if_neg hfull, min_eq_right (not_lt.mp hfull)]
    · -- the bucket was used at this very time
      have hnow : b.last = now := le_antisymm hpast (by linarith)
      rw [if_neg helapsed, ← hnow, level_self hmax]

/-- The limiter after the bucket of a key was read and left at `v`. -/
def RateLimiter.leave (l : RateLimiter) (now : ℚ) (key : String) (v : ℚ) : RateLimiter :=
  l.set key ⟨v, now⟩

/-- The sweep after an allowed call, if the map has grown. -/
def RateLimiter.sweepIfGrown (l : RateLimiter) (now : ℚ) : RateLimiter :=
  if 4096 < l.buckets.length then l.sweepLocked now else l

/-- **What a call does.** It reads the level of its key, and takes one from it if it can. -/
theorem RateLimiter.InBounds.allow_cases (h : l.InBounds now) (key : String) :
    (l.levelAt key now < 1 ∧ l.allow now key = (l.leave now key (l.levelAt key now), false)) ∨
      (1 ≤ l.levelAt key now ∧ l.allow now key =
        ((l.leave now key (l.levelAt key now - 1)).sweepIfGrown now, true)) := by
  unfold RateLimiter.allow
  rw [h.refill_eq key]
  dsimp only
  by_cases hlow : l.levelAt key now < 1
  · rw [if_pos hlow]
    exact .inl ⟨hlow, rfl⟩
  · rw [if_neg hlow]
    exact .inr ⟨not_lt.mp hlow, rfl⟩

theorem levelAt_leave_self {v : ℚ} (hv : v ≤ l.burst) :
    (l.leave now key v).levelAt key now = v := by
  unfold RateLimiter.levelAt RateLimiter.leave
  rw [RateLimiter.get_set_self]
  exact level_self hv

theorem levelAt_leave_of_ne {other : String} (v : ℚ) (h : other ≠ key) (t : ℚ) :
    (l.leave now key v).levelAt other t = l.levelAt other t := by
  unfold RateLimiter.levelAt RateLimiter.leave
  rw [RateLimiter.get_set_of_ne l _ h]
  rfl

/-- A bucket afterwards is the one that was left, or another one as it was. -/
theorem RateLimiter.get_leave_cases {v : ℚ} {k : String} {b : Bucket}
    (hb : (l.leave now key v).get k = some b) :
    (k = key ∧ b = ⟨v, now⟩) ∨ (k ≠ key ∧ l.get k = some b) := by
  unfold RateLimiter.leave at hb
  by_cases hk : k = key
  · rw [hk, RateLimiter.get_set_self] at hb
    exact .inl ⟨hk, (Option.some.inj hb).symm⟩
  · rw [RateLimiter.get_set_of_ne l _ hk] at hb
    exact .inr ⟨hk, hb⟩

theorem RateLimiter.InBounds.leave (h : l.InBounds now) {v : ℚ} (hmin : 0 ≤ v)
    (hmax : v ≤ l.burst) (key : String) : (l.leave now key v).InBounds now := by
  constructor
  · intro k b hb
    rcases RateLimiter.get_leave_cases hb with ⟨-, rfl⟩ | ⟨-, hold⟩
    · exact ⟨hmin, hmax⟩
    · exact h.tokens k b hold
  · intro k b hb
    rcases RateLimiter.get_leave_cases hb with ⟨-, rfl⟩ | ⟨-, hold⟩
    · exact le_refl _
    · exact h.past k b hold

/-- What is swept had its level at the burst. -/
theorem RateLimiter.InBounds.levelAt_sweep (h : l.InBounds now) (hl : l.Positive)
    (hfills : l.burst ≤ l.rate * 600) (key : String) :
    (l.sweepLocked now).levelAt key now = l.levelAt key now := by
  unfold RateLimiter.levelAt
  rw [RateLimiter.get_sweepLocked]
  cases hget : l.get key with
  | none => rfl
  | some b =>
    by_cases hidle : 600 < now - b.last
    · have hfull := level_full (h.tokens key b hget).1 hl.rate_pos.le hfills hidle.le
      simp [Option.filter, hidle, hfull]
    · simp [Option.filter, hidle]

theorem RateLimiter.InBounds.sweep (h : l.InBounds now) : (l.sweepLocked now).InBounds now := by
  have hold : ∀ k b, (l.sweepLocked now).get k = some b → l.get k = some b := by
    intro k b hb
    rw [RateLimiter.get_sweepLocked] at hb
    exact (Option.filter_eq_some_iff.mp hb).1
  exact ⟨fun k b hb => h.tokens k b (hold k b hb), fun k b hb => h.past k b (hold k b hb)⟩

/-- What one call means for the levels. -/
structure CallSpec (l : RateLimiter) (now : ℚ) (key : String) (l' : RateLimiter) (ok : Bool) :
    Prop where
  rate : l'.rate = l.rate
  burst : l'.burst = l.burst
  bounds : l'.InBounds now
  answer : ok = true ↔ 1 ≤ l.levelAt key now
  spent : ∀ k, l'.levelAt k now + (if k = key ∧ ok = true then 1 else 0) = l.levelAt k now

/-- No other level changes. -/
theorem CallSpec.other {l' : RateLimiter} {ok : Bool} {k : String} (h : CallSpec l now key l' ok)
    (hk : k ≠ key) : l'.levelAt k now = l.levelAt k now := by
  have hspent := h.spent k
  rwa [if_neg fun heq => hk heq.1, add_zero] at hspent

theorem RateLimiter.InBounds.spec_refused (h : l.InBounds now) (hl : l.Positive) {key : String}
    (hlow : l.levelAt key now < 1) :
    CallSpec l now key (l.leave now key (l.levelAt key now)) false := by
  have hmax := levelAt_le_burst l key now
  refine ⟨rfl, rfl, h.leave (h.levelAt_nonneg hl key) hmax key, by simpa using hlow, ?_⟩
  intro k
  by_cases hk : k = key
  · rw [hk, levelAt_leave_self hmax]
    simp
  · rw [levelAt_leave_of_ne _ hk]
    simp

theorem RateLimiter.InBounds.spec_allowed (h : l.InBounds now) {key : String}
    (hone : 1 ≤ l.levelAt key now) :
    CallSpec l now key (l.leave now key (l.levelAt key now - 1)) true := by
  have hmax := levelAt_le_burst l key now
  refine ⟨rfl, rfl, h.leave (by linarith) (by linarith) key, by simpa using hone, ?_⟩
  intro k
  by_cases hk : k = key
  · rw [hk, levelAt_leave_self (by linarith)]
    simp
  · rw [levelAt_leave_of_ne _ hk]
    simp [hk]

/-- A sweep afterwards changes nothing of that. -/
theorem CallSpec.sweepIfGrown {l' : RateLimiter} {ok : Bool} (h : CallSpec l now key l' ok)
    (hl : l.Positive) (hfills : l.burst ≤ l.rate * 600) :
    CallSpec l now key (l'.sweepIfGrown now) ok := by
  unfold RateLimiter.sweepIfGrown
  split
  · refine ⟨h.rate, h.burst, h.bounds.sweep, h.answer, fun k => ?_⟩
    rw [h.bounds.levelAt_sweep (hl.congr h.rate h.burst) (by rwa [h.rate, h.burst])]
    exact h.spent k
  · exact h

/-- **Step.** A call is allowed if the level of its key is at least one, and takes one from
it; no other level changes. -/
theorem allow_spec (hl : l.Positive) (hfills : l.burst ≤ l.rate * 600) (h : l.InBounds now)
    (key : String) : CallSpec l now key (l.allow now key).1 (l.allow now key).2 := by
  rcases h.allow_cases key with ⟨hlow, heq⟩ | ⟨hone, heq⟩
  · rw [heq]
    exact h.spec_refused hl hlow
  · rw [heq]
    exact (h.spec_allowed hone).sweepIfGrown hl hfills

/-! ## Two limiters at the same levels -/

variable {m : RateLimiter}

/-- The same parameters and the same levels, whatever buckets there are. -/
structure Alike (l m : RateLimiter) (t : ℚ) : Prop where
  rate : m.rate = l.rate
  burst : m.burst = l.burst
  bounds : l.InBounds t
  bounds' : m.InBounds t
  levels : ∀ key, m.levelAt key t = l.levelAt key t

theorem Alike.refl (h : l.InBounds t) : Alike l l t := ⟨rfl, rfl, h, h, fun _ => rfl⟩

/-- Time keeps equal levels equal. -/
theorem Alike.mono (h : Alike l m t) (hl : l.Positive) (ht : t ≤ t') : Alike l m t' where
  rate := h.rate
  burst := h.burst
  bounds := h.bounds.mono ht
  bounds' := h.bounds'.mono ht
  levels key := by
    have hm : m.Positive := hl.congr h.rate h.burst
    rw [hl.levelAt_later key ht, hm.levelAt_later key ht, h.levels key, h.rate, h.burst]

/-- **Step.** Calls that mean the same for the levels get the same answer. -/
theorem Alike.call (h : Alike l m now) {l' m' : RateLimiter} {ok ok' : Bool}
    (hl : CallSpec l now key l' ok) (hm : CallSpec m now key m' ok') :
    ok' = ok ∧ Alike l' m' now := by
  have hok : ok' = ok := by
    rw [Bool.eq_iff_iff, hl.answer, hm.answer, h.levels key]
  refine ⟨hok, ?_, ?_, hl.bounds, hm.bounds, fun k => ?_⟩
  · rw [hm.rate, hl.rate, h.rate]
  · rw [hm.burst, hl.burst, h.burst]
  · have hspent := hl.spent k
    have hspent' := hm.spent k
    rw [hok, h.levels k] at hspent'
    linarith

/-! ## Calls at non-decreasing times -/

variable {calls : List (ℚ × String)}

theorem le_of_mem_take {i : ℕ} {c d : ℚ × String}
    (hsorted : calls.Pairwise fun c d => c.1 ≤ d.1) (hd : calls[i]? = some d)
    (hc : c ∈ calls.take (i + 1)) : c.1 ≤ d.1 := by
  obtain ⟨hi, rfl⟩ := List.getElem?_eq_some_iff.mp hd
  obtain ⟨k, hk, rfl⟩ := List.mem_take_iff_getElem.mp hc
  rcases (show k ≤ i by omega).eq_or_lt with rfl | hlt
  · exact le_refl _
  · exact List.pairwise_iff_getElem.mp hsorted k i (by omega) hi hlt

theorem le_of_mem_drop {i : ℕ} {c d : ℚ × String}
    (hsorted : calls.Pairwise fun c d => c.1 ≤ d.1) (hd : calls[i]? = some d)
    (hc : c ∈ calls.drop i) : d.1 ≤ c.1 := by
  obtain ⟨hi, rfl⟩ := List.getElem?_eq_some_iff.mp hd
  obtain ⟨k, hk, rfl⟩ := List.mem_drop_iff_getElem.mp hc
  rcases (show i ≤ i + k by omega).eq_or_lt with heq | hlt
  · simp [← heq]
  · exact List.pairwise_iff_getElem.mp hsorted i (i + k) hi (by omega) hlt

/-- A time before every call. -/
theorem exists_le_calls (calls : List (ℚ × String)) (t' : ℚ) :
    ∃ t ≤ t', ∀ c ∈ calls, t ≤ c.1 := by
  induction calls with
  | nil => exact ⟨t', le_refl _, by simp⟩
  | cons c calls ih =>
    obtain ⟨t, ht, hcalls⟩ := ih
    refine ⟨min t c.1, (min_le_left _ _).trans ht, fun d hd => ?_⟩
    rcases List.mem_cons.mp hd with rfl | hd
    · exact min_le_right _ _
    · exact (min_le_left _ _).trans (hcalls d hd)

/-- And one after. -/
theorem exists_calls_le (calls : List (ℚ × String)) : ∃ t', ∀ c ∈ calls, c.1 ≤ t' := by
  induction calls with
  | nil => exact ⟨0, by simp⟩
  | cons c calls ih =>
    obtain ⟨t', hcalls⟩ := ih
    refine ⟨max t' c.1, fun d hd => ?_⟩
    rcases List.mem_cons.mp hd with rfl | hd
    · exact le_max_right _ _
    · exact (hcalls d hd).trans (le_max_left _ _)

end ForgeQueue
