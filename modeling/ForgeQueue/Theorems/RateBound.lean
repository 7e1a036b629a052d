import ForgeQueue.Logic.Levels
import Mathlib.Data.Rat.Floor

/-!
# The rate bound of the login limiter

The level of a key is the potential that pays for its allowed calls. Over a run, what was
allowed and what is left add up to no more than the level at the start and what flowed in
(`run_spec`), so a window can pay for the burst and the inflow and for no more.
-/

namespace ForgeQueue

open Base

variable {l : RateLimiter} {now t t' : ℚ} {key : String}

/-! ## The log of a run -/

/-- The calls of a run with their answers. -/
def RateLimiter.log (l : RateLimiter) (calls : List (ℚ × String)) : List ((ℚ × String) × Bool) :=
  calls.zip (l.allowAll calls).2

/-- How many calls of a key were allowed. -/
def allowedFor (key : String) (log : List ((ℚ × String) × Bool)) : ℕ :=
  log.countP fun e => e.1.2 = key ∧ e.2 = true

variable {calls : List (ℚ × String)}

theorem log_cons (l : RateLimiter) (now : ℚ) (key : String) (calls : List (ℚ × String)) :
    l.log ((now, key) :: calls) =
      ((now, key), (l.allow now key).2) :: (l.allow now key).1.log calls := rfl

theorem log_take (l : RateLimiter) (calls : List (ℚ × String)) (n : ℕ) :
    l.log (calls.take n) = (l.log calls).take n := by
  induction n generalizing l calls with
  | zero => rfl
  | succ n ih =>
    cases calls with
    | nil => rfl
    | cons c calls =>
      rw [List.take_succ_cons, log_cons, log_cons, List.take_succ_cons, ih]

/-- What is left of the log is the log of what is left. -/
theorem log_drop (l : RateLimiter) (calls : List (ℚ × String)) (n : ℕ) :
    (l.allowAll (calls.take n)).1.log (calls.drop n) = (l.log calls).drop n := by
  induction n generalizing l calls with
  | zero => rfl
  | succ n ih =>
    cases calls with
    | nil => rfl
    | cons c calls => exact ih (l.allow c.1 c.2).1 calls

/-- An answer is given in the state the calls before it lead to. -/
theorem answer_eq (l : RateLimiter) {i : ℕ} (hc : calls[i]? = some (now, key)) :
    (l.allowAll calls).2[i]? = some ((l.allowAll (calls.take i)).1.allow now key).2 := by
  induction i generalizing l calls with
  | zero =>
    cases calls with
    | nil => cases hc
    | cons c calls =>
      obtain rfl : c = (now, key) := by simpa using hc
      rfl
  | succ i ih =>
    cases calls with
    | nil => cases hc
    | cons c calls => exact ih (l.allow c.1 c.2).1 (by simpa using hc)

theorem allowedFor_cons (key : String) (e : (ℚ × String) × Bool)
    (log : List ((ℚ × String) × Bool)) :
    (allowedFor key (e :: log) : ℚ) =
      allowedFor key log + if key = e.1.2 ∧ e.2 = true then 1 else 0 := by
  unfold allowedFor
  rw [List.countP_cons]
  simp only [decide_eq_true_eq, eq_comm (a := key)]
  split <;> simp

/-- No more calls are allowed than are made. -/
theorem allowedFor_log_le (l : RateLimiter) (key : String) (calls : List (ℚ × String)) :
    allowedFor key (l.log calls) ≤ calls.countP fun c => c.2 = key := by
  induction calls generalizing l with
  | nil => exact le_refl _
  | cons c calls ih =>
    have hrest := ih (l.allow c.1 c.2).1
    rw [log_cons, allowedFor, List.countP_cons, List.countP_cons]
    refine Nat.add_le_add hrest ?_
    by_cases hk : c.2 = key
    · simp only [hk, decide_true, if_true]
      split <;> simp
    · simp [hk]

/-! ## Whole runs -/

/-- What a run of calls does between two times. -/
structure RunSpec (l : RateLimiter) (t : ℚ) (calls : List (ℚ × String)) (t' : ℚ) : Prop where
  rate : (l.allowAll calls).1.rate = l.rate
  burst : (l.allowAll calls).1.burst = l.burst
  bounds : (l.allowAll calls).1.InBounds t'
  upper : ∀ key, allowedFor key (l.log calls) + (l.allowAll calls).1.levelAt key t' ≤
    l.levelAt key t + (t' - t) * l.rate
  lower : ∀ key, l.levelAt key t ≤
    (l.allowAll calls).1.levelAt key t' + allowedFor key (l.log calls)

/-- **Run.** Allowed calls are paid from the level and from what flows in, and nothing else
is. -/
theorem run_spec (hl : l.Rated) (h : l.InBounds t) (ht : t ≤ t')
    (hsorted : calls.Pairwise fun c d => c.1 ≤ d.1) (hfrom : ∀ c ∈ calls, t ≤ c.1)
    (hto : ∀ c ∈ calls, c.1 ≤ t') : RunSpec l t calls t' := by
  induction calls generalizing l t with
  | nil =>
    refine ⟨rfl, rfl, h.mono ht, fun key => ?_, fun key => ?_⟩
    · have hup := hl.positive.levelAt_le_add key ht
      simpa [RateLimiter.log, allowedFor, RateLimiter.allowAll] using hup
    · have hmono := hl.positive.levelAt_mono key ht
      simpa [RateLimiter.log, allowedFor, RateLimiter.allowAll] using hmono
  | cons c calls ih =>
    obtain ⟨now, key⟩ := c
    rw [List.pairwise_cons] at hsorted
    have hnow : t ≤ now := hfrom _ List.mem_cons_self
    have hstep := allow_spec hl.positive hl.fills (h.mono hnow) key
    have hrest := ih (hl.congr hstep.rate hstep.burst) hstep.bounds (hto _ List.mem_cons_self) hsorted.2 hsorted.1
      fun c hc => hto c (List.mem_cons_of_mem _ hc)
    refine ⟨hrest.rate.trans hstep.rate, hrest.burst.trans hstep.burst, hrest.bounds, ?_, ?_⟩
    · intro k
      have hrise := hl.positive.levelAt_le_add k hnow
      have hspent := hstep.spent k
      have hup := hrest.upper k
      rw [hstep.rate] at hup
      rw [log_cons, allowedFor_cons]
      calc _ = (allowedFor k ((l.allow now key).1.log calls) +
              ((l.allow now key).1.allowAll calls).1.levelAt k t') +
              (if k = key ∧ (l.allow now key).2 = true then 1 else 0) := by
            rw [RateLimiter.allowAll]
            ring
        _ ≤ l.levelAt k now + (t' - now) * l.rate := by linarith
        _ ≤ l.levelAt k t + (t' - t) * l.rate := by linarith
    · intro k
      have hmono := hl.positive.levelAt_mono k hnow
      have hspent := hstep.spent k
      have hlow := hrest.lower k
      rw [log_cons, allowedFor_cons]
      calc l.levelAt k t ≤ l.levelAt k now := hmono
        _ = (l.allow now key).1.levelAt k now +
              (if k = key ∧ (l.allow now key).2 = true then 1 else 0) := hspent.symm
        _ ≤ _ := by
            rw [RateLimiter.allowAll]
            linarith

/-! ## From a new limiter -/

section NewLimiter

variable {rate burst : ℚ} (hrate : 0 < rate) (hburst : 1 ≤ burst) (hfills : burst ≤ rate * 600)

include hrate hburst hfills

theorem newRateLimiter_run (hsorted : calls.Pairwise fun c d => c.1 ≤ d.1)
    (hto : ∀ c ∈ calls, c.1 ≤ t') :
    ∃ t, RunSpec (newRateLimiter rate burst) t calls t' := by
  obtain ⟨t, ht, hfrom⟩ := exists_le_calls calls t'
  exact ⟨t, run_spec (newRateLimiter_rated hrate hburst hfills)
    (newRateLimiter_inBounds rate burst t) ht hsorted hfrom hto⟩

/-- The state before call `i`: rated, in bounds at the time of the call. -/
theorem newRateLimiter_before {i : ℕ} {d : ℚ × String}
    (hsorted : calls.Pairwise fun c d => c.1 ≤ d.1) (hd : calls[i]? = some d) :
    ∃ t, RunSpec (newRateLimiter rate burst) t (calls.take i) d.1 :=
  newRateLimiter_run hrate hburst hfills hsorted.take fun _ hc =>
    le_of_mem_take hsorted hd (List.take_subset_take_left calls (Nat.le_succ i) hc)

/-- In a window the level pays for at most the burst, and the rest flows in. -/
theorem newRateLimiter_window {i j : ℕ} {c d : ℚ × String} (hij : i ≤ j)
    (hsorted : calls.Pairwise fun c d => c.1 ≤ d.1) (hc : calls[i]? = some c)
    (hd : calls[j]? = some d) (key : String) :
    allowedFor key ((((newRateLimiter rate burst).log calls).drop i).take (j + 1 - i)) ≤
      burst + rate * (d.1 - c.1) := by
  obtain ⟨t, hbefore⟩ := newRateLimiter_before hrate hburst hfills hsorted hc
  have hl := newRateLimiter_rated hrate hburst hfills
  have hwindow : (calls.drop i).take (j + 1 - i) = (calls.take (j + 1)).drop i :=
    (List.drop_take ..).symm
  have hlast : d ∈ calls.drop i := by
    obtain ⟨hj, rfl⟩ := List.getElem?_eq_some_iff.mp hd
    exact List.mem_drop_iff_getElem.mpr ⟨j - i, by omega, by simp [Nat.add_sub_cancel' hij]⟩
  have hrun := run_spec (hl.congr hbefore.rate hbefore.burst) hbefore.bounds
    (le_of_mem_drop hsorted hc hlast) (hsorted.drop.take (i := j + 1 - i))
    (fun e he => le_of_mem_drop hsorted hc (List.mem_of_mem_take he))
    (fun e he => le_of_mem_take hsorted hd (List.mem_of_mem_drop (hwindow ▸ he)))
  have hup := hrun.upper key
  have hfirst := levelAt_le_burst ((newRateLimiter rate burst).allowAll (calls.take i)).1 key c.1
  have hend := hrun.bounds.levelAt_nonneg
    (hl.positive.congr (hrun.rate.trans hbefore.rate) (hrun.burst.trans hbefore.burst)) key
  rw [hbefore.burst, newRateLimiter_burst hburst] at hfirst
  rw [hbefore.rate, newRateLimiter_rate hrate, log_take, log_drop] at hup
  linarith

theorem newRateLimiter_tokens (hsorted : calls.Pairwise fun c d => c.1 ≤ d.1) {key : String}
    {b : Bucket} (hb : ((newRateLimiter rate burst).allowAll calls).1.get key = some b) :
    0 ≤ b.tokens ∧ b.tokens ≤ burst := by
  obtain ⟨t', hto⟩ := exists_calls_le calls
  obtain ⟨t, hrun⟩ := newRateLimiter_run hrate hburst hfills hsorted hto
  have htokens := hrun.bounds.tokens key b hb
  rwa [hrun.burst, newRateLimiter_burst hburst] at htokens

/-- While fewer calls of a key were made than the burst, its level is at least one. -/
theorem newRateLimiter_first {i : ℕ} {now : ℚ} {key : String}
    (hsorted : calls.Pairwise fun c d => c.1 ≤ d.1) (hc : calls[i]? = some (now, key))
    (hfew : ((calls.take i).countP fun c => c.2 = key) < ⌊burst⌋₊) :
    ((newRateLimiter rate burst).allowAll calls).2[i]? = some true := by
  obtain ⟨t, hbefore⟩ := newRateLimiter_before hrate hburst hfills hsorted hc
  have hl := newRateLimiter_rated hrate hburst hfills
  set l := newRateLimiter rate burst with hdef
  have hstart : l.levelAt key t = burst := newRateLimiter_burst hburst
  have hspent : (allowedFor key (l.log (calls.take i)) + 1 : ℚ) ≤ burst := by
    have hcount := allowedFor_log_le l key (calls.take i)
    calc (allowedFor key (l.log (calls.take i)) + 1 : ℚ) ≤ ⌊burst⌋₊ := by
          exact_mod_cast (by omega : allowedFor key (l.log (calls.take i)) + 1 ≤ ⌊burst⌋₊)
      _ ≤ burst := Nat.floor_le (by linarith)
  have hlow := hbefore.lower key
  have hrated := hl.congr hbefore.rate hbefore.burst
  have hspec := allow_spec hrated.positive hrated.fills hbefore.bounds key
  have hok : ((l.allowAll (calls.take i)).1.allow now key).2 = true :=
    hspec.answer.mpr (by linarith)
  rw [← hok]
  exact answer_eq l hc

end NewLimiter

/-! ## The bound -/

/-- **The rate bound.** In every run of calls at non-decreasing times, on any mix of keys and
with every sweep on the way: among calls `i` to `j` those of a key that are allowed are at
most the burst and what flows in between the two times; every bucket holds between nothing and
the burst after every call; and the first calls of a key, as many as the burst has whole
tokens, are allowed. -/
theorem rate_bound (rate burst : ℚ) (hrate : 0 < rate) (hburst : 1 ≤ burst)
    (hfills : burst ≤ rate * 600) (calls : List (ℚ × String))
    (hsorted : calls.Pairwise fun c d => c.1 ≤ d.1) :
    (∀ key i j c d, i ≤ j → calls[i]? = some c → calls[j]? = some d →
      allowedFor key ((((newRateLimiter rate burst).log calls).drop i).take (j + 1 - i)) ≤
        burst + rate * (d.1 - c.1)) ∧
    (∀ n key b, ((newRateLimiter rate burst).allowAll (calls.take n)).1.get key = some b →
      0 ≤ b.tokens ∧ b.tokens ≤ burst) ∧
    (∀ i now key, calls[i]? = some (now, key) →
      ((calls.take i).countP fun c => c.2 = key) < ⌊burst⌋₊ →
      ((newRateLimiter rate burst).allowAll calls).2[i]? = some true) := by
  refine ⟨?_, ?_, ?_⟩
  · intro key i j c d hij hc hd
    exact newRateLimiter_window hrate hburst hfills hij hsorted hc hd key
  · intro n key b hb
    exact newRateLimiter_tokens hrate hburst hfills hsorted.take hb
  · intro i now key hc hfew
    exact newRateLimiter_first hrate hburst hfills hsorted hc hfew

/-- A client that calls three times at once on a burst of two and again after the time one
token takes. -/
def burstCalls : List (ℚ × String) := [(0, "a"), (0, "a"), (0, "b"), (0, "a"), (5, "a")]

theorem rate_bound_burst :
    ((newRateLimiter (1 / 5) 2).allowAll burstCalls).2 = [true, true, true, false, true] ∧
    (allowedFor "a" ((newRateLimiter (1 / 5) 2).log burstCalls) : ℚ) ≤ 3 ∧
    ((newRateLimiter (1 / 5) 2).allowAll burstCalls).2[1]? = some true := by
  have hsorted : burstCalls.Pairwise fun c d => c.1 ≤ d.1 := by decide +kernel
  have h := rate_bound (1 / 5) 2 (by norm_num) (by norm_num) (by norm_num) burstCalls hsorted
  refine ⟨by decide +kernel, ?_, ?_⟩
  · have hwindow := h.1 "a" 0 4 (0, "a") (5, "a") (by decide) rfl rfl
    have hall : allowedFor "a" ((((newRateLimiter (1 / 5) 2).log burstCalls).drop 0).take 5) =
        allowedFor "a" ((newRateLimiter (1 / 5) 2).log burstCalls) := by decide +kernel
    rw [← hall]
    exact hwindow.trans (by norm_num)
  · exact h.2.2 1 0 "a" rfl (by norm_num [burstCalls])

end ForgeQueue
