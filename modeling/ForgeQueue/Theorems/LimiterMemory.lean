import ForgeQueue.Logic.Levels
import Mathlib.Data.Finset.Card
import Mathlib.Data.Set.Basic

/-!
# The memory of the limiter

The sweep drops buckets that have been idle for ten minutes, and runs only after an allowed
call. So the limiter has to hold every key of the last ten minutes, and it never holds more
than these or 4096 (`Remembers`). A limiter that allows nothing never sweeps and holds every
key there was. How many keys come in ten minutes is up to the callers: a flood of distinct
keys grows the map without bound.
-/

namespace ForgeQueue

open Base

/-- The keys of a limiter. -/
def RateLimiter.keys (l : RateLimiter) : Finset String := (l.buckets.map Prod.fst).toFinset

/-- The keys that were called no more than ten minutes before `now`. -/
def recentKeys (calls : List (ℚ × String)) (now : ℚ) : Finset String :=
  ((calls.filter fun c => now - c.1 ≤ 600).map Prod.snd).toFinset

/-- The keys a limiter has to hold at `now`: those of the last ten minutes, and all keys if
it has less than one token for anybody and never gets to sweep. -/
def RateLimiter.neededKeys (l : RateLimiter) (calls : List (ℚ × String)) (now : ℚ) :
    Finset String :=
  if l.burst < 1 then (calls.map Prod.snd).toFinset else recentKeys calls now

variable {l : RateLimiter} {calls : List (ℚ × String)} {now t' : ℚ} {key : String}

/-! ## Keys -/

theorem card_keys (l : RateLimiter) : l.keys.card = l.buckets.length := by
  rw [RateLimiter.keys, List.toFinset_card_of_nodup l.distinct, List.length_map]

theorem mem_keys : key ∈ l.keys ↔ ∃ b, l.get key = some b := by
  rw [RateLimiter.keys, List.mem_toFinset, List.mem_map]
  constructor
  · rintro ⟨⟨k, b⟩, hmem, rfl⟩
    exact ⟨b, RateLimiter.get_eq_some.mpr hmem⟩
  · rintro ⟨b, hb⟩
    exact ⟨(key, b), RateLimiter.get_eq_some.mp hb, rfl⟩

theorem mem_recentKeys :
    key ∈ recentKeys calls now ↔ ∃ c ∈ calls, c.2 = key ∧ now - c.1 ≤ 600 := by
  rw [recentKeys, List.mem_toFinset, List.mem_map]
  constructor
  · rintro ⟨c, hc, rfl⟩
    obtain ⟨hmem, hrecent⟩ := List.mem_filter.mp hc
    exact ⟨c, hmem, rfl, of_decide_eq_true hrecent⟩
  · rintro ⟨c, hmem, rfl, hrecent⟩
    exact ⟨c, List.mem_filter.mpr ⟨hmem, decide_eq_true hrecent⟩, rfl⟩

theorem mem_neededKeys : key ∈ l.neededKeys calls now ↔
    ∃ c ∈ calls, c.2 = key ∧ (l.burst < 1 ∨ now - c.1 ≤ 600) := by
  unfold RateLimiter.neededKeys
  split
  · next hlow => simp [hlow]
  · next hlow => simp [hlow, mem_recentKeys]

theorem keys_leave (l : RateLimiter) (now : ℚ) (key : String) (v : ℚ) :
    (l.leave now key v).keys = insert key l.keys := by
  ext k
  rw [Finset.mem_insert, mem_keys, mem_keys]
  unfold RateLimiter.leave
  by_cases hk : k = key
  · rw [hk, RateLimiter.get_set_self]
    simp
  · rw [RateLimiter.get_set_of_ne l _ hk]
    simp [hk]

/-! ## What the buckets stand for -/

/-- After the calls `calls`, at time `now`: every bucket was last used by a call of its key,
and the keys that are needed have a bucket that was used since. -/
structure Remembers (l : RateLimiter) (calls : List (ℚ × String)) (now : ℚ) : Prop where
  bounds : l.InBounds now
  past : ∀ c ∈ calls, c.1 ≤ now
  origin : ∀ key b, l.get key = some b → (b.last, key) ∈ calls
  kept : ∀ c ∈ calls, l.burst < 1 ∨ now - c.1 ≤ 600 → ∃ b, l.get c.2 = some b ∧ c.1 ≤ b.last

theorem Remembers.mono (h : Remembers l calls now) (ht : now ≤ t') : Remembers l calls t' where
  bounds := h.bounds.mono ht
  past c hc := (h.past c hc).trans ht
  origin := h.origin
  kept c hc hneeded := h.kept c hc (hneeded.imp_right fun hrecent => by linarith)

theorem Remembers.leave (h : Remembers l calls now) {v : ℚ} (hmin : 0 ≤ v) (hmax : v ≤ l.burst)
    (key : String) : Remembers (l.leave now key v) (calls ++ [(now, key)]) now where
  bounds := h.bounds.leave hmin hmax key
  past := by
    intro c hc
    rcases List.mem_append.mp hc with hc | hc
    · exact h.past c hc
    · rw [List.mem_singleton.mp hc]
  origin := by
    intro k b hb
    rcases RateLimiter.get_leave_cases hb with ⟨rfl, rfl⟩ | ⟨-, hold⟩
    · exact List.mem_append_right _ List.mem_cons_self
    · exact List.mem_append_left _ (h.origin k b hold)
  kept := by
    intro c hc hneeded
    unfold RateLimiter.leave
    by_cases hk : c.2 = key
    · refine ⟨⟨v, now⟩, by rw [hk, RateLimiter.get_set_self], ?_⟩
      rcases List.mem_append.mp hc with hc | hc
      · exact h.past c hc
      · rw [List.mem_singleton.mp hc]
    · rw [RateLimiter.get_set_of_ne l _ hk]
      rcases List.mem_append.mp hc with hc | hc
      · exact h.kept c hc hneeded
      · rw [List.mem_singleton.mp hc] at hk
        exact absurd rfl hk

theorem Remembers.sweep (h : Remembers l calls now) (hburst : 1 ≤ l.burst) :
    Remembers (l.sweepLocked now) calls now where
  bounds := h.bounds.sweep
  past := h.past
  origin := by
    intro k b hb
    rw [RateLimiter.get_sweepLocked] at hb
    exact h.origin k b (Option.filter_eq_some_iff.mp hb).1
  kept := by
    intro c hc hneeded
    -- a bucket used by a recent call is not idle
    have hrecent : now - c.1 ≤ 600 := hneeded.resolve_left (not_lt.mpr hburst)
    obtain ⟨b, hb, hused⟩ := h.kept c hc hneeded
    refine ⟨b, ?_, hused⟩
    rw [RateLimiter.get_sweepLocked, hb, Option.filter_some, if_pos]
    simp only [decide_eq_true_eq, not_lt]
    linarith

/-- Needed keys are held. -/
theorem Remembers.needed_subset (h : Remembers l calls now) :
    l.neededKeys calls now ⊆ l.keys := by
  intro k hk
  obtain ⟨c, hc, rfl, hneeded⟩ := mem_neededKeys.mp hk
  obtain ⟨b, hb, -⟩ := h.kept c hc hneeded
  exact mem_keys.mpr ⟨b, hb⟩

/-- After a sweep nothing else is. -/
theorem Remembers.sweep_subset (h : Remembers l calls now) :
    (l.sweepLocked now).keys ⊆ l.neededKeys calls now := by
  intro k hk
  obtain ⟨b, hb⟩ := mem_keys.mp hk
  rw [RateLimiter.get_sweepLocked] at hb
  obtain ⟨hget, hused⟩ := Option.filter_eq_some_iff.mp hb
  have hrecent : ¬ 600 < now - b.last := of_decide_eq_true hused
  exact mem_neededKeys.mpr ⟨(b.last, k), h.origin k b hget, rfl, .inr (not_lt.mp hrecent)⟩

/-- Nor is it in a limiter that never sweeps. -/
theorem Remembers.keys_subset (h : Remembers l calls now) (hlow : l.burst < 1) :
    l.keys ⊆ l.neededKeys calls now := by
  intro k hk
  obtain ⟨b, hb⟩ := mem_keys.mp hk
  exact mem_neededKeys.mpr ⟨(b.last, k), h.origin k b hb, rfl, .inl hlow⟩

/-! ## One call -/

theorem neededKeys_congr {l' : RateLimiter} (h : l'.burst = l.burst)
    (calls : List (ℚ × String)) (now : ℚ) : l'.neededKeys calls now = l.neededKeys calls now := by
  unfold RateLimiter.neededKeys
  rw [h]

/-- What a call does to the memory. -/
structure MemorySpec (l : RateLimiter) (calls : List (ℚ × String)) (now : ℚ) (key : String)
    (l' : RateLimiter) : Prop where
  rate : l'.rate = l.rate
  burst : l'.burst = l.burst
  remembers : Remembers l' (calls ++ [(now, key)]) now
  size : l'.keys.card ≤ l.keys.card ∨ l'.keys.card ≤ 4096 ∨
    l'.keys.card ≤ (l.neededKeys (calls ++ [(now, key)]) now).card

/-- **Step.** A new key is allowed, and then the map is swept if it has grown; or there is no
token for anybody and nothing was ever swept. -/
theorem Remembers.allow (h : Remembers l calls now) (hl : l.Positive) (key : String) :
    MemorySpec l calls now key (l.allow now key).1 := by
  have hmax := levelAt_le_burst l key now
  rcases h.bounds.allow_cases key with ⟨hlow, heq⟩ | ⟨hone, heq⟩
  · have hrem := h.leave (h.bounds.levelAt_nonneg hl key) hmax key
    rw [heq]
    refine ⟨rfl, rfl, hrem, ?_⟩
    by_cases hold : key ∈ l.keys
    · left
      show (l.leave now key _).keys.card ≤ _
      rw [keys_leave, Finset.insert_eq_of_mem hold]
    · -- a new key starts at the burst
      have hnone : l.get key = none := by
        rw [mem_keys, not_exists] at hold
        exact Option.eq_none_iff_forall_ne_some.mpr hold
      have hburst : l.burst < 1 := by
        rwa [RateLimiter.levelAt, hnone] at hlow
      exact .inr (.inr (Finset.card_le_card (hrem.keys_subset hburst)))
  · have hrem := h.leave (v := l.levelAt key now - 1) (by linarith) (by linarith) key
    rw [heq]
    unfold RateLimiter.sweepIfGrown
    split
    · refine ⟨rfl, rfl, hrem.sweep (hone.trans hmax), .inr (.inr ?_)⟩
      exact Finset.card_le_card hrem.sweep_subset
    · next hsmall =>
      refine ⟨rfl, rfl, hrem, .inr (.inl ?_)⟩
      rw [card_keys]
      exact not_lt.mp hsmall

/-! ## Whole runs -/

theorem allowAll_snoc (l : RateLimiter) (calls : List (ℚ × String)) (now : ℚ) (key : String) :
    (l.allowAll (calls ++ [(now, key)])).1 = ((l.allowAll calls).1.allow now key).1 := by
  induction calls generalizing l with
  | nil => rfl
  | cons c calls ih => exact ih (l.allow c.1 c.2).1

/-- A run of a limiter that has seen no call yet. -/
structure RunMemory (l : RateLimiter) (calls : List (ℚ × String)) (now : ℚ) : Prop where
  rate : (l.allowAll calls).1.rate = l.rate
  burst : (l.allowAll calls).1.burst = l.burst
  remembers : Remembers (l.allowAll calls).1 calls now
  size : ∀ K, (∀ before t k, before ++ [(t, k)] <+: calls →
      (l.neededKeys (before ++ [(t, k)]) t).card ≤ K) →
    (l.allowAll calls).1.keys.card ≤ max 4096 K

/-- **Run.** -/
theorem run_memory (ratePerSecond burst : ℚ) :
    ∀ now : ℚ, calls.Pairwise (fun c d => c.1 ≤ d.1) → (∀ c ∈ calls, c.1 ≤ now) →
      RunMemory (newRateLimiter ratePerSecond burst) calls now := by
  induction calls using List.reverseRecOn with
  | nil =>
    intro now _ _
    refine ⟨rfl, rfl, ⟨newRateLimiter_inBounds _ _ now, by simp, ?_, by simp⟩, ?_⟩
    · intro k b hb
      simp [newRateLimiter, RateLimiter.allowAll, RateLimiter.get] at hb
    · intro K _
      simp [newRateLimiter, RateLimiter.allowAll, RateLimiter.keys]
  | append_singleton calls c ih =>
    intro now hsorted hto
    obtain ⟨t, key⟩ := c
    rw [List.pairwise_append] at hsorted
    have hbefore : ∀ c ∈ calls, c.1 ≤ t :=
      fun c hc => hsorted.2.2 c hc _ (List.mem_singleton.mpr rfl)
    obtain ⟨hrate, hburst, hrem, hsize⟩ := ih t hsorted.1 hbefore
    have hl := (newRateLimiter_positive ratePerSecond burst).congr hrate hburst
    have hstep := hrem.allow hl key
    rw [← allowAll_snoc] at hstep
    refine ⟨hstep.rate.trans hrate, hstep.burst.trans hburst,
      hstep.remembers.mono (hto _ (List.mem_append_right _ List.mem_cons_self)), ?_⟩
    intro K hK
    have hneeded := hK calls t key (List.prefix_refl _)
    have hold := hsize K fun before u k hp => hK before u k (hp.trans (List.prefix_append _ _))
    have hlast := hstep.size
    rw [neededKeys_congr hburst] at hlast
    rcases hlast with hle | hle | hle
    · exact hle.trans hold
    · exact hle.trans (le_max_left _ _)
    · exact (hle.trans hneeded).trans (le_max_right _ _)

/-! ## The result -/

/-- The call sequences at non-decreasing times. -/
def timedCalls : Set (List (ℚ × String)) := {calls | calls.Pairwise fun c d => c.1 ≤ d.1}

/-- Over these runs the limiter never holds more than a fixed number of buckets. -/
def RateLimiter.Bounded (l : RateLimiter) (runs : Set (List (ℚ × String))) : Prop :=
  ∃ B : ℕ, ∀ calls ∈ runs, ∀ n, (l.allowAll (calls.take n)).1.buckets.length ≤ B

/-- In these runs no more than a fixed number of keys is needed at a time. -/
def RateLimiter.FewKeys (l : RateLimiter) (runs : Set (List (ℚ × String))) : Prop :=
  ∃ K : ℕ, ∀ calls ∈ runs, ∀ before now key, before ++ [(now, key)] <+: calls →
    (l.neededKeys (before ++ [(now, key)]) now).card ≤ K

/-- What is needed is no more than what is held. -/
theorem RunMemory.needed_le (h : RunMemory l calls now) :
    (l.neededKeys calls now).card ≤ (l.allowAll calls).1.buckets.length := by
  rw [← card_keys, ← neededKeys_congr h.burst]
  exact Finset.card_le_card h.remembers.needed_subset

/-- Distinct keys. -/
def floodKey (i : ℕ) : String := .ofList (List.replicate i 'a')

theorem floodKey_injective : Function.Injective floodKey := by
  intro i j h
  have hlen := congrArg (List.length ∘ String.toList) h
  simpa [floodKey] using hlen

/-- A flood: `n` keys at one time. -/
def flood (n : ℕ) : List (ℚ × String) := (List.range n).map fun i => (0, floodKey i)

theorem flood_mem_timedCalls (n : ℕ) : flood n ∈ timedCalls := by
  show (flood n).Pairwise fun c d => c.1 ≤ d.1
  rw [flood, List.pairwise_map]
  exact List.pairwise_of_forall fun _ _ => le_refl _

theorem flood_le {n : ℕ} {c : ℚ × String} (hc : c ∈ flood n) : c.1 ≤ 0 := by
  obtain ⟨i, -, rfl⟩ := List.mem_map.mp hc
  exact le_refl _

/-- The limiter holds all of it. -/
theorem flood_held (ratePerSecond burst : ℚ) (n : ℕ) :
    n ≤ ((newRateLimiter ratePerSecond burst).allowAll (flood n)).1.buckets.length := by
  have hrun := run_memory ratePerSecond burst 0 (flood_mem_timedCalls n) fun _ hc => flood_le hc
  have hsub : (Finset.range n).image floodKey ⊆
      (newRateLimiter ratePerSecond burst).neededKeys (flood n) 0 := by
    intro k hk
    obtain ⟨i, hi, rfl⟩ := Finset.mem_image.mp hk
    refine mem_neededKeys.mpr ⟨(0, floodKey i), ?_, rfl, .inr (by norm_num)⟩
    exact List.mem_map.mpr ⟨i, List.mem_range.mpr (Finset.mem_range.mp hi), rfl⟩
  calc n = ((Finset.range n).image floodKey).card := by
        rw [Finset.card_image_of_injective _ floodKey_injective, Finset.card_range]
    _ ≤ _ := (Finset.card_le_card hsub).trans hrun.needed_le

theorem not_bounded_timedCalls (ratePerSecond burst : ℚ) :
    ¬ (newRateLimiter ratePerSecond burst).Bounded timedCalls := by
  rintro ⟨B, hB⟩
  have hle := hB (flood (B + 1)) (flood_mem_timedCalls _) (flood (B + 1)).length
  rw [List.take_length] at hle
  have hheld := flood_held ratePerSecond burst (B + 1)
  omega

/-- **The memory is bounded exactly as far as the callers bound it.** For every limiter and
every set of call sequences at non-decreasing times: there is a bound on the number of
buckets over all of them if and only if there is one on the number of keys called within ten
minutes, or on the number of keys at all if the limiter allows nothing. So no limiter has a
bound over all call sequences. -/
theorem limiter_memory_bounded_iff (ratePerSecond burst : ℚ) :
    (∀ runs ⊆ timedCalls, (newRateLimiter ratePerSecond burst).Bounded runs ↔
      (newRateLimiter ratePerSecond burst).FewKeys runs) ∧
    ¬ (newRateLimiter ratePerSecond burst).Bounded timedCalls := by
  refine ⟨fun runs hruns => ⟨?_, ?_⟩, not_bounded_timedCalls ratePerSecond burst⟩
  · rintro ⟨B, hB⟩
    refine ⟨B, fun calls hcalls before now key hpre => ?_⟩
    have hsorted := (hruns hcalls).sublist hpre.sublist
    have hto : ∀ c ∈ before ++ [(now, key)], c.1 ≤ now := by
      intro c hc
      rcases List.mem_append.mp hc with hc | hc
      · exact (List.pairwise_append.mp hsorted).2.2 c hc _ (List.mem_singleton.mpr rfl)
      · rw [List.mem_singleton.mp hc]
    have hheld := (run_memory ratePerSecond burst now hsorted hto).needed_le
    have hle := hB calls hcalls (before ++ [(now, key)]).length
    rw [← List.prefix_iff_eq_take.mp hpre] at hle
    exact hheld.trans hle
  · rintro ⟨K, hK⟩
    refine ⟨max 4096 K, fun calls hcalls n => ?_⟩
    obtain ⟨now, hto⟩ := exists_calls_le (calls.take n)
    have hrun := run_memory ratePerSecond burst now (hruns hcalls).take hto
    rw [← card_keys]
    exact hrun.size K fun before t k hp =>
      hK calls hcalls before t k (hp.trans (List.take_prefix n calls))

/-- Call sequences of two clients. -/
def twoClients : Set (List (ℚ × String)) :=
  {calls | calls ∈ timedCalls ∧ ∀ c ∈ calls, c.2 = "a" ∨ c.2 = "b"}

theorem limiter_memory_bounded_iff_two : loginIP.Bounded twoClients := by
  refine ((limiter_memory_bounded_iff (1 / 5) 10).1 twoClients fun _ h => h.1).mpr ⟨2, ?_⟩
  intro calls hcalls before now key hpre
  have hsub : (newRateLimiter (1 / 5) 10).neededKeys (before ++ [(now, key)]) now ⊆
      {"a", "b"} := by
    intro k hk
    obtain ⟨c, hc, rfl, -⟩ := mem_neededKeys.mp hk
    have hclient := hcalls.2 c (hpre.subset hc)
    simpa using hclient
  exact (Finset.card_le_card hsub).trans (by decide)

/-- The per-client limiter of the login has no bound. -/
theorem limiter_memory_flood :
    ¬ ∃ B : ℕ, ∀ calls : List (ℚ × String), (calls.Pairwise fun c d => c.1 ≤ d.1) →
      ∀ n, (loginIP.allowAll (calls.take n)).1.buckets.length ≤ B :=
  not_bounded_timedCalls (1 / 5) 10

end ForgeQueue
