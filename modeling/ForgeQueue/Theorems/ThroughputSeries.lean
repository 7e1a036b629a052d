import ForgeQueue.Base.Bins
import ForgeQueue.Model.Throughput
import Mathlib

/-!
# What the throughput series adds up to

All buckets are whole seconds long, so their bounds are evenly spaced whatever the fraction
of the current second. But each bucket asks for both of its bounds: the second in which one
bucket ends and the next begins is counted in both.
-/

namespace ForgeQueue

open Base

/-- The bounds of bucket `i` of a range. -/
def seriesBounds (now : ℤ) (rangeQ : String) (i : ℕ) : ℤ × ℤ :=
  bucketBounds now (seriesRange rangeQ).1 ((seriesRange rangeQ).1 / (seriesRange rangeQ).2) i

/-- The second in which bucket `i` starts; `seriesEdge now rangeQ n` is the end of the last
of `n` buckets. -/
def seriesEdge (now : ℤ) (rangeQ : String) (i : ℕ) : ℤ := (seriesBounds now rangeQ i).1

/-! ## Bounds -/

/-- The buckets of every range are a whole number of seconds long. -/
theorem seriesRange_whole (rangeQ : String) :
    0 < (seriesRange rangeQ).2 ∧
      ∃ len : ℤ, 0 < len ∧ (seriesRange rangeQ).1 / (seriesRange rangeQ).2 = len * second := by
  unfold seriesRange
  split
  · exact ⟨by decide, 15, by decide, by decide⟩
  · exact ⟨by decide, 30, by decide, by decide⟩
  · exact ⟨by decide, 120, by decide, by decide⟩
  · exact ⟨by decide, 600, by decide, by decide⟩
  · exact ⟨by decide, 1800, by decide, by decide⟩
  · exact ⟨by decide, 10800, by decide, by decide⟩
  · exact ⟨by decide, 30, by decide, by decide⟩

/-- One bucket ends where the next begins. -/
theorem bucketBounds_end (now span step : ℤ) (i : ℕ) :
    (bucketBounds now span step i).2 = (bucketBounds now span step (i + 1)).1 := by
  have hstart : bucketStart now span step i + step = bucketStart now span step (i + 1) := by
    unfold bucketStart
    push_cast
    ring
  unfold bucketBounds
  rw [hstart]

/-- The edges are evenly spaced. -/
theorem seriesEdge_eq (now : ℤ) (rangeQ : String) :
    ∃ len : ℤ, 0 < len ∧ ∀ i : ℕ,
      seriesEdge now rangeQ i = unixSeconds (now - (seriesRange rangeQ).1) + i * len := by
  obtain ⟨-, len, hlen, hstep⟩ := seriesRange_whole rangeQ
  refine ⟨len, hlen, fun i => ?_⟩
  have hsum : now + (-(seriesRange rangeQ).1 + i * (len * second)) =
      now - (seriesRange rangeQ).1 + i * len * second := by
    ring
  unfold seriesEdge seriesBounds bucketBounds bucketStart unixSeconds
  rw [hstep, hsum]
  exact Int.add_mul_ediv_right _ _ (by decide)

theorem seriesEdge_strictMono (now : ℤ) (rangeQ : String) :
    StrictMono (seriesEdge now rangeQ) := by
  obtain ⟨len, hlen, heq⟩ := seriesEdge_eq now rangeQ
  refine strictMono_nat_of_lt_succ fun i => ?_
  rw [heq, heq]
  push_cast
  linarith

/-! ## Counts -/

variable {now : ℤ} {rangeQ : String} {store : MetricStore} {m : Metric}

/-- The scores of a set. -/
def MetricSet.scores (s : MetricSet) : List ℤ := s.entries.map Prod.snd

/-- A point counts what is in its bin. -/
theorem genSeries_counts (now : ℤ) (rangeQ : String) (store : MetricStore) (m : Metric) :
    (genSeries now rangeQ store).map (·.count m) =
      (List.range (seriesRange rangeQ).2).map fun i =>
        ((((store.sets m).scores.countP fun x => InBin (seriesEdge now rangeQ) i x) : ℕ) : ℤ) := by
  unfold genSeries
  rw [List.map_map]
  refine List.map_congr_left fun i _ => ?_
  rw [Function.comp_apply, seriesPoint_count, bucketBounds_end, MetricSet.zcount,
    MetricSet.scores, List.countP_map]
  rfl

/-- **The sum of a series** is what lies in the window, and once more what lies on an edge
between two buckets. -/
theorem genSeries_sum (now : ℤ) (rangeQ : String) (store : MetricStore) (m : Metric) :
    ((genSeries now rangeQ store).map (·.count m)).sum =
      ((store.sets m).scores.countP fun x =>
        InWindow (seriesEdge now rangeQ) (seriesRange rangeQ).2 x : ℕ) +
      ((store.sets m).scores.countP fun x =>
        OnInnerPoint (seriesEdge now rangeQ) (seriesRange rangeQ).2 x : ℕ) := by
  have hpos := (seriesRange_whole rangeQ).1
  rw [genSeries_counts, ← Nat.cast_add,
    ← sum_bins (seriesEdge_strictMono now rangeQ) hpos, Nat.cast_list_sum, List.map_map]
  rfl

/-! ## The result -/

/-- The number of points. -/
def seriesLength (rangeQ : String) : ℕ := (seriesRange rangeQ).2

/-- Between the start of the first bucket and the end of the last. The bounds are whole
seconds, as `Unix` gives them, and a score stands for its second. -/
def InSeries (now : ℤ) (rangeQ : String) (score : ℤ) : Prop :=
  (seriesBounds now rangeQ 0).1 ≤ score ∧
    score ≤ (seriesBounds now rangeQ (seriesLength rangeQ - 1)).2

instance (now : ℤ) (rangeQ : String) (score : ℤ) : Decidable (InSeries now rangeQ score) :=
  inferInstanceAs (Decidable (_ ∧ _))

theorem inSeries_iff {score : ℤ} : InSeries now rangeQ score ↔
    InWindow (seriesEdge now rangeQ) (seriesRange rangeQ).2 score := by
  have hlast : (seriesBounds now rangeQ (seriesLength rangeQ - 1)).2 =
      seriesEdge now rangeQ (seriesRange rangeQ).2 := by
    have hpos := (seriesRange_whole rangeQ).1
    have hsucc : seriesLength rangeQ - 1 + 1 = (seriesRange rangeQ).2 := Nat.sub_add_cancel hpos
    rw [seriesBounds, bucketBounds_end, hsucc]
    rfl
  rw [InSeries, hlast]
  rfl

/-- The points of a series partition its events: each event of the window is within the
bounds of one point and of no other, and the counts add up to the events of the window. -/
structure Partitioned (now : ℤ) (rangeQ : String) (store : MetricStore) (m : Metric) : Prop where
  once : ∀ e ∈ (store.sets m).entries, InSeries now rangeQ e.2 →
    ∃! i, i < seriesLength rangeQ ∧
      (seriesBounds now rangeQ i).1 ≤ e.2 ∧ e.2 ≤ (seriesBounds now rangeQ i).2
  total : ((genSeries now rangeQ store).map (·.count m)).sum =
    ((store.sets m).entries.countP fun e => InSeries now rangeQ e.2 : ℕ)

/-- A value is within the bounds of as many points as bins. -/
theorem existsUnique_bounds_iff {score : ℤ} :
    (∃! i, i < seriesLength rangeQ ∧
      (seriesBounds now rangeQ i).1 ≤ score ∧ score ≤ (seriesBounds now rangeQ i).2) ↔
    hits (seriesEdge now rangeQ) (seriesRange rangeQ).2 score = 1 := by
  have hbin : ∀ i, ((seriesBounds now rangeQ i).1 ≤ score ∧
      score ≤ (seriesBounds now rangeQ i).2) ↔ InBin (seriesEdge now rangeQ) i score := by
    intro i
    rw [seriesBounds, bucketBounds_end]
    rfl
  simp only [hbin]
  exact existsUnique_iff_hits _ _ _

/-- **The buckets partition the window exactly if nothing happened on an edge.** At every
time, for every range and every content of the server, and for each of the three series:
every event of the window is counted in exactly one point, and the series adds up to the
events of the window, if and only if no event was recorded in a second in which one bucket
ends and the next begins. -/
theorem throughput_partition_iff (now : ℤ) (rangeQ : String) (store : MetricStore) (m : Metric) :
    Partitioned now rangeQ store m ↔
      ∀ e ∈ (store.sets m).entries, ∀ k, 0 < k → k < seriesLength rangeQ →
        e.2 ≠ (seriesBounds now rangeQ k).1 := by
  have hmono := seriesEdge_strictMono now rangeQ
  have hpos := (seriesRange_whole rangeQ).1
  constructor
  · intro h e he k hkpos hk heq
    have hinner : OnInnerPoint (seriesEdge now rangeQ) (seriesRange rangeQ).2 e.2 :=
      ⟨k, hk, hkpos, heq.symm⟩
    have hwin := hinner.inWindow hmono
    have hone := existsUnique_bounds_iff.mp (h.once e he (inSeries_iff.mpr hwin))
    rw [hits_eq hmono hpos, if_pos hwin, if_pos hinner] at hone
    omega
  · intro h
    have hinner : ∀ e ∈ (store.sets m).entries,
        ¬ OnInnerPoint (seriesEdge now rangeQ) (seriesRange rangeQ).2 e.2 := by
      rintro e he ⟨k, hk, hkpos, heq⟩
      exact h e he k hkpos hk heq.symm
    constructor
    · intro e he hin
      rw [existsUnique_bounds_iff, hits_eq hmono hpos, if_pos (inSeries_iff.mp hin),
        if_neg (hinner e he)]
    · have hnone : ((store.sets m).scores.countP fun x =>
          OnInnerPoint (seriesEdge now rangeQ) (seriesRange rangeQ).2 x) = 0 := by
        rw [List.countP_eq_zero]
        intro x hx
        obtain ⟨e, he, rfl⟩ := List.mem_map.mp hx
        simpa using hinner e he
      rw [genSeries_sum, hnone, MetricSet.scores, List.countP_map, Nat.cast_zero, add_zero]
      simp only [inSeries_iff]
      rfl

/-- One task, enqueued in second 30. -/
def edgeStore : MetricStore where
  sets
    | .enqueued => ⟨[("a", 30)], by decide⟩
    | _ => ⟨[], by decide⟩
  dead := 0
  immediate := 1
  inflight := 0
  scheduled := 0

/-- At second 900 the last quarter of an hour has two enqueued tasks. -/
theorem throughput_partition_edge :
    ¬ ∀ (now : ℤ) (rangeQ : String) (store : MetricStore) (m : Metric),
      Partitioned now rangeQ store m := by
  intro hall
  have htotal := (hall (900 * second) "15m" edgeStore .enqueued).total
  revert htotal
  decide +kernel

end ForgeQueue
