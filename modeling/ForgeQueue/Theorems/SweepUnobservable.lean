import ForgeQueue.Theorems.LimiterMemory

/-!
# The sweep is unobservable

The limiter is compared with one that never sweeps. After the same calls the two maps hold
different keys, but the levels are the same: a bucket is swept after ten minutes, and by
then it is as full as the bucket a new key gets. Answers are decided by levels.
-/

namespace ForgeQueue

open Base

/-- `allow` of a limiter that never sweeps. -/
def RateLimiter.allowUnswept (l : RateLimiter) (now : ℚ) (key : String) : RateLimiter × Bool :=
  let b := l.refill now ((l.get key).getD ⟨l.burst, now⟩)
  if b.tokens < 1 then (l.set key b, false)
  else (l.set key { b with tokens := b.tokens - 1 }, true)

/-- Its answers to a sequence of calls. -/
def RateLimiter.allowAllUnswept : RateLimiter → List (ℚ × String) → RateLimiter × List Bool
  | l, [] => (l, [])
  | l, (now, key) :: calls =>
    let one := l.allowUnswept now key
    let next := one.1.allowAllUnswept calls
    (next.1, one.2 :: next.2)

variable {l m : RateLimiter} {now t : ℚ} {key : String}

/-- A call means the same for the levels. -/
theorem allowUnswept_spec (hl : l.Positive) (h : l.InBounds now) (key : String) :
    CallSpec l now key (l.allowUnswept now key).1 (l.allowUnswept now key).2 := by
  unfold RateLimiter.allowUnswept
  rw [h.refill_eq key]
  dsimp only
  by_cases hlow : l.levelAt key now < 1
  · rw [if_pos hlow]
    exact h.spec_refused hl hlow
  · rw [if_neg hlow]
    exact h.spec_allowed (not_lt.mp hlow)

/-- **Run.** Two limiters at the same levels give the same answers, with sweeps and
without. -/
theorem Alike.answers (hl : l.Positive) (hfills : l.burst ≤ l.rate * 600)
    {calls : List (ℚ × String)} (h : Alike l m t)
    (hsorted : calls.Pairwise fun c d => c.1 ≤ d.1) (hfrom : ∀ c ∈ calls, t ≤ c.1) :
    (l.allowAll calls).2 = (m.allowAllUnswept calls).2 := by
  induction calls generalizing l m t with
  | nil => rfl
  | cons c calls ih =>
    obtain ⟨now, key⟩ := c
    rw [List.pairwise_cons] at hsorted
    have hnow := h.mono hl (hfrom _ List.mem_cons_self)
    have hstep := allow_spec hl hfills hnow.bounds key
    have hstep' := allowUnswept_spec (hl.congr h.rate h.burst) hnow.bounds' key
    obtain ⟨hok, hnext⟩ := hnow.call hstep hstep'
    have hrest := ih (hl.congr hstep.rate hstep.burst) (by rwa [hstep.rate, hstep.burst]) hnext
      hsorted.2 hsorted.1
    rw [RateLimiter.allowAll, RateLimiter.allowAllUnswept, hok, hrest]

/-- **The sweep is unobservable.** For every limiter whose buckets fill up within the ten
minutes after which they may be swept, and every sequence of calls on any keys at
non-decreasing times, the answers are those of a limiter with the same parameters that never
sweeps. -/
theorem sweep_unobservable (ratePerSecond burst : ℚ)
    (hfills : (newRateLimiter ratePerSecond burst).burst ≤
      (newRateLimiter ratePerSecond burst).rate * 600)
    (calls : List (ℚ × String)) (hsorted : calls.Pairwise fun c d => c.1 ≤ d.1) :
    ((newRateLimiter ratePerSecond burst).allowAll calls).2 =
      ((newRateLimiter ratePerSecond burst).allowAllUnswept calls).2 := by
  cases calls with
  | nil => rfl
  | cons c calls =>
    have hstart := newRateLimiter_inBounds ratePerSecond burst c.1
    refine Alike.answers (newRateLimiter_positive ratePerSecond burst) hfills (.refl hstart)
      hsorted fun d hd => ?_
    rcases List.mem_cons.mp hd with rfl | hd
    · exact le_refl _
    · exact (List.pairwise_cons.mp hsorted).1 d hd

/-- A call on a grown map that nobody has used for ten minutes forgets everybody else. -/
theorem RateLimiter.InBounds.allow_forgets (h : l.InBounds t) (hl : l.Rated)
    (hgrown : 4096 < l.buckets.length) (hidle : t + 600 < now) {other : String}
    (hne : other ≠ key) : (l.allow now key).1.get other = none := by
  have hnow : l.InBounds now := h.mono (by linarith)
  have hfull : l.levelAt key now = l.burst := by
    unfold RateLimiter.levelAt
    cases hget : l.get key with
    | none => rfl
    | some b =>
      have hpast := h.past key b hget
      exact level_full (h.tokens key b hget).1 hl.rate_pos.le hl.fills (by linarith)
  have hone : ¬ l.levelAt key now < 1 := not_lt.mpr (hfull ▸ hl.burst_ge)
  rcases hnow.allow_cases key with ⟨hlow, -⟩ | ⟨-, heq⟩
  · exact absurd hlow hone
  · have hlen : 4096 < (l.leave now key (l.levelAt key now - 1)).buckets.length := by
      rw [← card_keys, keys_leave]
      rw [← card_keys] at hgrown
      exact hgrown.trans_le (Finset.card_le_card (Finset.subset_insert _ _))
    rw [heq, RateLimiter.sweepIfGrown, if_pos hlen, RateLimiter.get_sweepLocked,
      RateLimiter.leave, RateLimiter.get_set_of_ne l _ hne, Option.filter_eq_none_iff]
    intro b hb
    have hpast := h.past other b hb
    rw [decide_eq_true_eq, not_not]
    linarith

/-- A flood of 4097 clients, a client a quarter of an hour later, and one of the flood that
comes back. -/
def returningCalls : List (ℚ × String) :=
  flood 4097 ++ [(900, floodKey 0), (901, floodKey 1)]

theorem returningCalls_sorted : returningCalls.Pairwise fun c d => c.1 ≤ d.1 := by
  refine List.pairwise_append.mpr ⟨flood_mem_timedCalls _, by decide +kernel, ?_⟩
  intro c hc d hd
  refine (flood_le hc).trans ?_
  simp only [List.mem_cons, List.not_mem_nil, or_false] at hd
  rcases hd with rfl | rfl <;> norm_num

/-- The first of the two calls has swept the bucket of the second, whose answer is the same. -/
theorem sweep_unobservable_returning :
    (loginIP.allowAll returningCalls).2 = (loginIP.allowAllUnswept returningCalls).2 ∧
      (loginIP.allowAll (flood 4097 ++ [(900, floodKey 0)])).1.get (floodKey 1) = none := by
  refine ⟨sweep_unobservable (1 / 5) 10 (by decide +kernel) returningCalls
    returningCalls_sorted, ?_⟩
  have hflood := run_memory (1 / 5) 10 0 (flood_mem_timedCalls 4097) fun _ hc => flood_le hc
  rw [allowAll_snoc]
  refine hflood.remembers.bounds.allow_forgets ?_ (flood_held (1 / 5) 10 4097) (by norm_num) ?_
  · exact login_limiters_rated.2.congr hflood.rate hflood.burst
  · exact fun h => absurd (floodKey_injective h) one_ne_zero

end ForgeQueue
