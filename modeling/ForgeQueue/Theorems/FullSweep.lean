import ForgeQueue.Logic.Walk
import Mathlib.Algebra.GroupWithZero.Nat

/-!
# A full sweep of the reconciler

With nobody else running, a walk of `ReconcileOnce` over the whole journal does to Redis
what materializing its rows one by one does (`repairAll`), each task once. A row whose task
is in one of the hot structures is left alone, so rows do not disturb each other and a
second walk finds nothing to do.
-/

namespace ForgeQueue

open Base

variable {Body : Type}

/-! ## What repairing rows does to Redis -/

/-- After the rows `ts`. -/
structure Repaired (clock : String → ℚ) (ts : List (Row Body)) (r r' : Redis Body) (n : ℕ) :
    Prop where
  live : ∀ x, r'.Live x ↔ x ∈ ts.map Row.id ∨ r.Live x
  inflight : r'.inflight = r.inflight
  leases : r'.leases = r.leases
  dead : r'.dead = r.dead
  paused : r'.paused = r.paused
  others : ∀ x, r.Live x ∨ x ∉ ts.map Row.id →
    r'.scheduled x = r.scheduled x ∧ r'.task x = r.task x
  ready : r'.immediate =
    ((ts.filter fun t => ¬ r.Live t.id ∧ materializeScore (clock t.id) t = none).map
      Row.id).reverse ++ r.immediate
  placed : ∀ t ∈ ts, ¬ r.Live t.id →
    r'.task t.id = some t.payload ∧ r'.scheduled t.id = materializeScore (clock t.id) t
  count : n = (ts.filter fun t => ¬ r.Live t.id).length

theorem Repaired.nil (clock : String → ℚ) (r : Redis Body) : Repaired clock [] r r 0 where
  live := by simp
  inflight := rfl
  leases := rfl
  dead := rfl
  paused := rfl
  others _ _ := ⟨rfl, rfl⟩
  ready := rfl
  placed := by simp
  count := rfl

/-- A row whose task is live. -/
theorem Repaired.present (clock : String → ℚ) {t : Row Body} {r : Redis Body}
    (hlive : r.Live t.id) : Repaired clock [t] r r 0 where
  live := by
    intro x
    rw [List.map_singleton, List.mem_singleton]
    exact ⟨.inr, fun hx => hx.elim (fun heq => heq ▸ hlive) id⟩
  inflight := rfl
  leases := rfl
  dead := rfl
  paused := rfl
  others _ _ := ⟨rfl, rfl⟩
  ready := by simp [hlive]
  placed := by
    intro u hu habsent
    rw [List.mem_singleton.mp hu] at habsent
    exact absurd hlive habsent
  count := by simp [hlive]

/-- A row whose task is absent. -/
theorem Repaired.absent (clock : String → ℚ) {t : Row Body} {r : Redis Body}
    (habsent : ¬ r.Live t.id) : Repaired clock [t] r (materialize (clock t.id) t r).1 1 := by
  have hlive := materialize_live (clock t.id) t r
  rw [materialize_absent habsent] at hlive ⊢
  refine ⟨?_, routePush_inflight .., routePush_leases .., routePush_dead .., routePush_paused ..,
    ?_, ?_, ?_, ?_⟩
  · intro x
    rw [hlive, List.map_singleton, List.mem_singleton]
  · intro x hx
    have hne : x ≠ t.id := by
      rintro rfl
      rcases hx with hx | hx
      · exact habsent hx
      · exact hx List.mem_cons_self
    have hframe := routePush_sameAt hne (materializeScore (clock t.id) t)
      { r with task := put r.task t.id t.payload }
    exact ⟨hframe.scheduled, hframe.task.trans (put_of_ne _ _ hne)⟩
  · cases hscore : materializeScore (clock t.id) t with
    | none => simp [hscore, habsent, routePush]
    | some score => simp [hscore, routePush]
  · intro u hu _
    obtain rfl := List.mem_singleton.mp hu
    have hnone : r.scheduled u.id = none := by
      simp only [Redis.Live, not_or, Option.not_isSome_iff_eq_none] at habsent
      exact habsent.2.2
    cases materializeScore (clock u.id) u with
    | none => exact ⟨put_self _ _ _, hnone⟩
    | some score => exact ⟨put_self _ _ _, put_self _ _ _⟩
  · simp [habsent]

/-- Rows of other tasks after them. -/
theorem Repaired.append {clock : String → ℚ} {ts us : List (Row Body)} {r r₁ r' : Redis Body}
    {n m : ℕ} (h : Repaired clock ts r r₁ n) (h' : Repaired clock us r₁ r' m)
    (hdisjoint : ∀ u ∈ us, u.id ∉ ts.map Row.id) : Repaired clock (ts ++ us) r r' (n + m) := by
  -- the second rows find what they would have found without the first
  have hsame : ∀ u ∈ us, r₁.Live u.id ↔ r.Live u.id := by
    intro u hu
    rw [h.live]
    exact or_iff_right (hdisjoint u hu)
  refine ⟨?_, h'.inflight.trans h.inflight, h'.leases.trans h.leases, h'.dead.trans h.dead,
    h'.paused.trans h.paused, ?_, ?_, ?_, ?_⟩
  · intro x
    rw [h'.live, h.live, List.map_append, List.mem_append]
    tauto
  · intro x hx
    rw [List.map_append, List.mem_append, not_or] at hx
    obtain ⟨hscheduled, htask⟩ := h.others x (hx.imp_right And.left)
    obtain ⟨hscheduled', htask'⟩ := h'.others x
      (hx.imp (fun hlive => (h.live x).mpr (.inr hlive)) And.right)
    exact ⟨hscheduled'.trans hscheduled, htask'.trans htask⟩
  · have hfilter : (us.filter fun u => ¬ r₁.Live u.id ∧ materializeScore (clock u.id) u = none) =
        us.filter fun u => ¬ r.Live u.id ∧ materializeScore (clock u.id) u = none := by
      refine List.filter_congr fun u hu => ?_
      rw [decide_eq_decide, hsame u hu]
    rw [h'.ready, h.ready, hfilter, List.filter_append, List.map_append, List.reverse_append,
      List.append_assoc]
  · intro u hu hno
    rcases List.mem_append.mp hu with hu | hu
    · obtain ⟨htask, hscheduled⟩ := h.placed u hu hno
      obtain ⟨hscheduled', htask'⟩ := h'.others u.id
        (.inl ((h.live u.id).mpr (.inl (List.mem_map_of_mem hu))))
      exact ⟨htask'.trans htask, hscheduled'.trans hscheduled⟩
    · exact h'.placed u hu (by rwa [hsame u hu])
  · have hfilter : (us.filter fun u => ¬ r₁.Live u.id) = us.filter fun u => ¬ r.Live u.id := by
      refine List.filter_congr fun u hu => ?_
      rw [decide_eq_decide, hsame u hu]
    rw [h.count, h'.count, hfilter, List.filter_append, List.length_append]

/-- **Loop.** Rows of distinct tasks are repaired as if each were the only one. -/
theorem repairAll_spec (clock : String → ℚ) (ts : List (Row Body)) :
    ∀ r : Redis Body, (ts.map Row.id).Nodup →
      Repaired clock ts r (repairAll clock ts r).1 (repairAll clock ts r).2 := by
  induction ts with
  | nil => exact fun r _ => .nil clock r
  | cons t ts ih =>
    intro r hnd
    rw [List.map_cons, List.nodup_cons] at hnd
    have hdisjoint : ∀ u ∈ ts, u.id ∉ [t].map Row.id := by
      intro u hu hmem
      rw [List.map_singleton, List.mem_singleton] at hmem
      exact hnd.1 (hmem ▸ List.mem_map_of_mem hu)
    rw [repairAll]
    by_cases hlive : r.Live t.id
    · simp only [materialize_of_live hlive (clock t.id), Bool.false_eq_true, if_false]
      exact (Repaired.present clock hlive).append (ih r hnd.2) hdisjoint
    · have hwritten : (materialize (clock t.id) t r).2 = true := by
        rw [materialize_absent hlive]
      simp only [hwritten, if_true]
      exact (Repaired.absent clock hlive).append (ih _ hnd.2) hdisjoint

/-! ## The walk visits every row once -/

/-- A row up to `redis_pending`, the one thing a sweep writes to the journal. -/
def Row.settled (row : Row Body) : Row Body := { row with redisPending := false }

theorem journalMaterialized_settled (id : String) (rows : List (Row Body)) :
    (journalMaterialized id rows).map Row.settled = rows.map Row.settled := by
  unfold journalMaterialized journalUpdate
  rw [List.map_map]
  apply List.map_congr_left
  intro row _
  show (if row.id = id then { row with redisPending := false } else row).settled = row.settled
  split <;> rfl

theorem foldl_settled (clock : String → ℚ) (page : List (Row Body)) :
    ∀ s : Sweep Body, (page.foldl (reconcileRow clock) s).journal.map Row.settled =
      s.journal.map Row.settled := by
  induction page with
  | nil => exact fun _ => rfl
  | cons t page ih =>
    intro s
    exact (ih (reconcileRow clock s t)).trans (journalMaterialized_settled t.id s.journal)

/-- **Simulation.** A walk of `ReconcileOnce` reads the pages of a walk over journals that
differ in `redis_pending` only, and repairs their rows one by one. -/
theorem reconcileWalk_walk (clock : String → ℚ) (pages : ℕ) :
    ∀ (cursor : Key) (r : Redis Body) (rows : List (Row Body)),
      ∃ Js : List (List (Row Body)), Js.length = pages ∧
        (∀ J ∈ Js, J.map Row.settled = rows.map Row.settled) ∧
        ∀ read, walk reconcilePageSize cursor Js = some read →
          ∃ res, reconcileWalk clock pages cursor r rows = some res ∧
            (res.redis, res.repaired.sum) = repairAll clock read.flatten r ∧
            res.journal.map Row.settled = rows.map Row.settled := by
  induction pages with
  | zero =>
    intro cursor r rows
    exact ⟨[], rfl, fun J hJ => (List.not_mem_nil hJ).elim, fun read h => nomatch h⟩
  | succ pages ih =>
    intro cursor r rows
    let page := active cursor reconcilePageSize rows
    let start : Sweep Body :=
      ⟨r, rows, 0, cursor, decide (page.length < reconcilePageSize)⟩
    obtain ⟨-, -, hnext, hdone⟩ := foldl_reconcileRow clock page start
    obtain ⟨hredis, hcount⟩ := foldl_repairAll clock page start
    have hsettled := foldl_settled clock page start
    have honce : reconcileOnce clock cursor r rows = page.foldl (reconcileRow clock) start := rfl
    rw [Nat.zero_add] at hcount
    by_cases hshort : page.length < reconcilePageSize
    · -- the last page; the journals of reads that do not happen do not matter
      refine ⟨rows :: List.replicate pages rows, by simp, ?_, ?_⟩
      · intro J hJ
        rcases List.mem_cons.mp hJ with rfl | hJ
        · rfl
        · rw [List.eq_of_mem_replicate hJ]
      · intro read hread
        rw [walk, if_pos hshort] at hread
        obtain rfl := Option.some.inj hread
        refine ⟨⟨(page.foldl (reconcileRow clock) start).redis,
          (page.foldl (reconcileRow clock) start).journal,
          [(page.foldl (reconcileRow clock) start).repaired]⟩, ?_, ?_, hsettled⟩
        · rw [reconcileWalk, honce, hdone, if_pos (decide_eq_true hshort)]
        · rw [List.flatten_singleton]
          rw [List.sum_singleton, hredis, hcount]
    · obtain ⟨Js, hlen, hsame, hwalk⟩ := ih (lastKey cursor page)
        (page.foldl (reconcileRow clock) start).redis
        (page.foldl (reconcileRow clock) start).journal
      refine ⟨rows :: Js, by rw [List.length_cons, hlen], ?_, ?_⟩
      · intro J hJ
        rcases List.mem_cons.mp hJ with rfl | hJ
        · rfl
        · exact (hsame J hJ).trans hsettled
      · intro read hread
        rw [walk, if_neg hshort] at hread
        obtain ⟨more, hmore, rfl⟩ := Option.map_eq_some_iff.mp hread
        obtain ⟨res, hres, hrepair, hjournal⟩ := hwalk more hmore
        refine ⟨{ res with
          repaired := (page.foldl (reconcileRow clock) start).repaired :: res.repaired },
          ?_, ?_, hjournal.trans hsettled⟩
        · rw [reconcileWalk, honce, hdone, hnext, if_neg (by simpa [start] using hshort), hres]
          rfl
        · rw [List.flatten_cons, repairAll_append, ← hredis, ← hrepair, hcount, List.sum_cons]

/-- What the table guarantees of its rows: `id` is the primary key, and `created_at` is the
database's clock at the insert, so no row is as old as Go's zero time. -/
structure Table (rows : List (Row Body)) : Prop where
  ids : (rows.map Row.id).Nodup
  stamped : ∀ row ∈ rows, zeroCursor < row.key

/-- Rows that differ in `redis_pending` only have the same keys, in the same states. -/
theorem view_of_settled {J rows : List (Row Body)}
    (h : J.map Row.settled = rows.map Row.settled) : J.map Row.view = rows.map Row.view := by
  have hmap := congrArg (List.map Row.view) h
  rw [List.map_map, List.map_map] at hmap
  exact hmap

theorem ids_of_settled {J rows : List (Row Body)}
    (h : J.map Row.settled = rows.map Row.settled) : J.map Row.id = rows.map Row.id := by
  have hmap := congrArg (List.map Row.id) h
  rw [List.map_map, List.map_map] at hmap
  exact hmap

theorem openKeys_of_settled {J rows : List (Row Body)}
    (h : J.map Row.settled = rows.map Row.settled) : openKeys J = openKeys rows := by
  rw [openKeys, view_of_settled h, openKeys]

/-- Two such rows. -/
theorem eq_of_settled {row t : Row Body} (h : row.settled = t.settled) :
    t = { row with redisPending := t.redisPending } := by
  obtain ⟨_, _, _, _, _, _, _, _, _⟩ := row
  obtain ⟨_, _, _, _, _, _, _, _, _⟩ := t
  simp only [Row.settled, Row.mk.injEq] at h ⊢
  tauto

theorem mem_of_settled {J rows : List (Row Body)}
    (h : J.map Row.settled = rows.map Row.settled) {t : Row Body} (ht : t ∈ J) :
    ∃ row ∈ rows, t = { row with redisPending := t.redisPending } := by
  have hmem : t.settled ∈ rows.map Row.settled := h ▸ List.mem_map_of_mem ht
  obtain ⟨row, hrow, heq⟩ := List.mem_map.mp hmem
  exact ⟨row, hrow, eq_of_settled heq⟩

theorem Table.of_settled {J rows : List (Row Body)} (htable : Table rows)
    (h : J.map Row.settled = rows.map Row.settled) : Table J where
  ids := by
    rw [ids_of_settled h]
    exact htable.ids
  stamped := by
    intro t ht
    obtain ⟨row, hrow, heq⟩ := mem_of_settled h ht
    rw [heq]
    exact htable.stamped row hrow

theorem mem_openRows {rows : List (Row Body)} {row : Row Body} :
    row ∈ openRows rows ↔ row ∈ rows ∧ row.state.terminal = false := by
  rw [openRows, List.mem_filter, Bool.not_eq_true']

/-- The rows `ts` are the non-terminal rows, each once, up to `redis_pending`. -/
structure Visits (rows ts : List (Row Body)) : Prop where
  nodup : (ts.map Row.id).Nodup
  sound : ∀ t ∈ ts, ∃ row ∈ openRows rows, t = { row with redisPending := t.redisPending }
  complete : ∀ row ∈ openRows rows, ∃ t ∈ ts, t = { row with redisPending := t.redisPending }

/-- **Walk.** Enough pages end the walk, and by then it has visited every non-terminal
row. -/
theorem full_walk {rows : List (Row Body)} (htable : Table rows) {pages : ℕ}
    (hpages : (openRows rows).length / reconcilePageSize < pages) (clock : String → ℚ)
    (r : Redis Body) :
    ∃ res ts, reconcileWalk clock pages zeroCursor r rows = some res ∧ Visits rows ts ∧
      (res.redis, res.repaired.sum) = repairAll clock ts r ∧
      res.journal.map Row.settled = rows.map Row.settled := by
  have hsize : 0 < reconcilePageSize := by decide
  obtain ⟨Js, hlen, hsame, hwalk⟩ := reconcileWalk_walk clock pages zeroCursor r rows
  have hids : ∀ J ∈ Js, (J.map Row.id).Nodup := fun J hJ => (htable.of_settled (hsame J hJ)).ids
  have hkeys : ∀ J ∈ Js, (J.map Row.id).Nodup ∧ openKeys J = openKeys rows :=
    fun J hJ => ⟨hids J hJ, openKeys_of_settled (hsame J hJ)⟩
  have hstable : Stable Js := by
    intro J hJ J' hJ' t ht t' ht' hid
    obtain ⟨row, hrow, heq⟩ := mem_of_settled (hsame J hJ) ht
    obtain ⟨row', hrow', heq'⟩ := mem_of_settled (hsame J' hJ') ht'
    rw [heq, heq'] at hid ⊢
    obtain rfl := List.inj_on_of_nodup_map htable.ids hrow hrow' hid
    rfl
  have hlength := walk_length hsize Js zeroCursor hkeys
  rw [openKeys_after_zero htable.stamped, hlen] at hlength
  obtain ⟨read, hread, -⟩ := hlength hpages
  obtain ⟨res, hres, hrepair, hjournal⟩ := hwalk read hread
  refine ⟨res, read.flatten, hres, ⟨walk_ids_nodup hsize hids hstable hread, ?_, ?_⟩, hrepair,
    hjournal⟩
  · intro t ht
    obtain ⟨J, hJ, hmem, hst⟩ := mem_walk hread ht
    obtain ⟨row, hrow, heq⟩ := mem_of_settled (hsame J hJ) hmem
    rw [heq] at hst
    exact ⟨row, mem_openRows.mpr ⟨hrow, hst⟩, heq⟩
  · intro row hrow
    obtain ⟨hmem, hst⟩ := mem_openRows.mp hrow
    have hopen : ∀ J ∈ Js.take read.length, row.key ∈ openKeys J := by
      intro J hJ
      rw [openKeys_of_settled (hsame J (List.mem_of_mem_take hJ))]
      exact mem_openKeys.mpr ⟨row, hmem, rfl, hst⟩
    obtain ⟨t, ht, hkey⟩ := walk_covers hsize hids hread (htable.stamped row hmem) hopen
    obtain ⟨J, hJ, htJ, -⟩ := mem_walk hread ht
    obtain ⟨row', hrow', heq⟩ := mem_of_settled (hsame J hJ) htJ
    rw [heq] at hkey
    have hid : row'.id = row.id := congrArg Key.id hkey
    obtain rfl := List.inj_on_of_nodup_map htable.ids hrow' hmem hid
    exact ⟨t, ht, heq⟩

/-! ## The result -/

/-- The non-terminal rows whose task is in none of the hot structures. -/
def absentRows (r : Redis Body) (rows : List (Row Body)) : List (Row Body) :=
  (openRows rows).filter fun row => ¬ r.Live row.id

theorem mem_absentRows {r : Redis Body} {rows : List (Row Body)} {row : Row Body} :
    row ∈ absentRows r rows ↔ row ∈ openRows rows ∧ ¬ r.Live row.id := by
  rw [absentRows, List.mem_filter, decide_eq_true_iff]

/-- What a full sweep leaves of the server `r` and the journal `rows` it found. -/
structure Swept (clock : String → ℚ) (r : Redis Body) (rows : List (Row Body))
    (res : Walked Body) : Prop where
  /-- Every task with a non-terminal row is in one of the hot structures. -/
  live : ∀ row ∈ openRows rows, res.redis.Live row.id
  /-- A task that was in one of them is as it was. -/
  present : ∀ id, r.Live id → SameAt id r res.redis
  /-- An absent task gets its journaled body, -/
  body : ∀ row ∈ absentRows r rows, res.redis.task row.id = some row.payload
  /-- and one entry: in the ready list, -/
  ready : ∀ row ∈ absentRows r rows, row.state ≠ .processing → row.scheduleAt = none →
    res.redis.immediate.count row.id = 1 ∧ res.redis.scheduled row.id = none
  /-- in the scheduled set for its due time in whole seconds, -/
  scheduled : ∀ row ∈ absentRows r rows, row.state ≠ .processing →
    ∀ due : ℚ, row.scheduleAt = some due →
      res.redis.immediate.count row.id = 0 ∧ res.redis.scheduled row.id = some (due.floor : ℚ)
  /-- or there for the current second. -/
  processing : ∀ row ∈ absentRows r rows, row.state = .processing →
    res.redis.immediate.count row.id = 0 ∧
      res.redis.scheduled row.id = some ((clock row.id).floor : ℚ)
  /-- Every other task is as it was, -/
  others : ∀ id, (∀ row ∈ absentRows r rows, row.id ≠ id) → SameAt id r res.redis
  /-- the ready list only grows at its head, -/
  order : ∃ added, res.redis.immediate = added ++ r.immediate ∧
    ∀ id ∈ added, ∃ row ∈ absentRows r rows, row.id = id
  /-- and the rest of the server is not touched. -/
  inflight : res.redis.inflight = r.inflight
  leases : res.redis.leases = r.leases
  dead : res.redis.dead = r.dead
  paused : res.redis.paused = r.paused
  /-- The counts of the pages add up to the absent tasks. -/
  repaired : res.repaired.sum = (absentRows r rows).length

section Assemble

variable {clock : String → ℚ} {r r' : Redis Body} {rows ts : List (Row Body)} {n : ℕ}

/-- The ids a walk pushes to the ready list. -/
def pushedBy (clock : String → ℚ) (r : Redis Body) (ts : List (Row Body)) : List String :=
  (ts.filter fun t => ¬ r.Live t.id ∧ materializeScore (clock t.id) t = none).map Row.id

theorem Visits.absent_of_pushed (hv : Visits rows ts) {id : String}
    (hid : id ∈ pushedBy clock r ts) : ∃ row ∈ absentRows r rows, row.id = id := by
  obtain ⟨t, ht, rfl⟩ := List.mem_map.mp hid
  obtain ⟨hmem, hcond⟩ := List.mem_filter.mp ht
  obtain ⟨row, hrow, heq⟩ := hv.sound t hmem
  have hidt : t.id = row.id := by rw [heq]
  refine ⟨row, mem_absentRows.mpr ⟨hrow, ?_⟩, hidt.symm⟩
  rw [← hidt]
  exact (of_decide_eq_true hcond).1

/-- What `Repaired` says of a row of the journal. -/
theorem Repaired.row (h : Repaired clock ts r r' n) (hv : Visits rows ts) {row : Row Body}
    (hrow : row ∈ absentRows r rows) :
    r'.task row.id = some row.payload ∧
      r'.scheduled row.id = materializeScore (clock row.id) row ∧
      r'.immediate.count row.id =
        if materializeScore (clock row.id) row = none then 1 else 0 := by
  obtain ⟨hopen, habsent⟩ := mem_absentRows.mp hrow
  obtain ⟨t, ht, heq⟩ := hv.complete row hopen
  have hidt : t.id = row.id := by rw [heq]
  have hscore : materializeScore (clock t.id) t = materializeScore (clock row.id) row := by
    rw [heq]
    rfl
  have hpayload : t.payload = row.payload := by rw [heq]
  obtain ⟨htask, hsched⟩ := h.placed t ht (hidt ▸ habsent)
  rw [hidt, hpayload] at htask
  rw [hscore, hidt] at hsched
  refine ⟨htask, hsched, ?_⟩
  have hold : r.immediate.count row.id = 0 :=
    List.count_eq_zero.mpr fun hmem => habsent (.inl hmem)
  rw [h.ready, List.count_append, hold, Nat.add_zero, List.count_reverse]
  have hnd : (pushedBy clock r ts).Nodup := hv.nodup.sublist (List.filter_sublist.map _)
  by_cases hnone : materializeScore (clock row.id) row = none
  · rw [if_pos hnone]
    refine List.count_eq_one_of_mem hnd (List.mem_map.mpr ⟨t, ?_, hidt⟩)
    refine List.mem_filter.mpr ⟨ht, decide_eq_true ⟨hidt ▸ habsent, hscore.trans hnone⟩⟩
  · rw [if_neg hnone]
    refine List.count_eq_zero.mpr fun hmem => ?_
    obtain ⟨u, hu, hidu⟩ := List.mem_map.mp hmem
    obtain ⟨hmemu, hcond⟩ := List.mem_filter.mp hu
    -- the walk has one row for the task
    obtain rfl := List.inj_on_of_nodup_map hv.nodup hmemu ht (hidu.trans hidt.symm)
    exact hnone (hscore.symm.trans (of_decide_eq_true hcond).2)

theorem Repaired.sameAt (h : Repaired clock ts r r' n) (hv : Visits rows ts) {id : String}
    (hid : ∀ row ∈ absentRows r rows, row.id ≠ id) : SameAt id r r' := by
  have hother : r.Live id ∨ id ∉ ts.map Row.id := by
    by_contra hno
    rw [not_or, not_not] at hno
    obtain ⟨t, ht, rfl⟩ := List.mem_map.mp hno.2
    obtain ⟨row, hrow, heq⟩ := hv.sound t ht
    have hidt : t.id = row.id := by rw [heq]
    exact hid row (mem_absentRows.mpr ⟨hrow, hidt ▸ hno.1⟩) hidt.symm
  have hnew : (pushedBy clock r ts).reverse.count id = 0 := by
    rw [List.count_reverse, List.count_eq_zero]
    intro hmem
    obtain ⟨row, hrow, heq⟩ := hv.absent_of_pushed hmem
    exact hid row hrow heq
  obtain ⟨hsched, htask⟩ := h.others id hother
  refine ⟨?_, by rw [h.inflight], by rw [h.leases], hsched, htask⟩
  rw [h.ready, List.count_append]
  show (pushedBy clock r ts).reverse.count id + _ = _
  rw [hnew, Nat.zero_add]

theorem Visits.absent_length (htable : Table rows) (hv : Visits rows ts) (r : Redis Body) :
    (ts.filter fun t => ¬ r.Live t.id).length = (absentRows r rows).length := by
  have hperm : (ts.map Row.id).Perm ((openRows rows).map Row.id) := by
    have hopen : ((openRows rows).map Row.id).Nodup :=
      htable.ids.sublist (List.filter_sublist.map _)
    refine (List.perm_ext_iff_of_nodup hv.nodup hopen).mpr fun id => ?_
    constructor
    · intro hid
      obtain ⟨t, ht, rfl⟩ := List.mem_map.mp hid
      obtain ⟨row, hrow, heq⟩ := hv.sound t ht
      exact List.mem_map.mpr ⟨row, hrow, by rw [heq]⟩
    · intro hid
      obtain ⟨row, hrow, rfl⟩ := List.mem_map.mp hid
      obtain ⟨t, ht, heq⟩ := hv.complete row hrow
      exact List.mem_map.mpr ⟨t, ht, by rw [heq]⟩
  have hcount : ∀ l : List (Row Body), (l.filter fun t => ¬ r.Live t.id).length =
      ((l.map Row.id).filter fun id => ¬ r.Live id).length := by
    intro l
    rw [List.filter_map, List.length_map]
    rfl
  rw [absentRows, hcount, hcount]
  exact (hperm.filter _).length_eq

/-- Repairing the visited rows is a full sweep. -/
theorem Repaired.swept {res : Walked Body} (htable : Table rows) (hv : Visits rows ts)
    (h : Repaired clock ts r res.redis res.repaired.sum) : Swept clock r rows res where
  live := by
    intro row hrow
    obtain ⟨t, ht, heq⟩ := hv.complete row hrow
    have hidt : t.id = row.id := by rw [heq]
    exact (h.live row.id).mpr (.inl (hidt ▸ List.mem_map_of_mem ht))
  present := by
    intro id hlive
    refine h.sameAt hv ?_
    rintro row hrow rfl
    exact (mem_absentRows.mp hrow).2 hlive
  body row hrow := (h.row hv hrow).1
  ready := by
    intro row hrow hstate hdue
    obtain ⟨-, hsched, hcount⟩ := h.row hv hrow
    have hscore : materializeScore (clock row.id) row = none := by
      unfold materializeScore
      cases hst : row.state <;> simp_all
    rw [hscore] at hsched hcount
    exact ⟨hcount, hsched⟩
  scheduled := by
    intro row hrow hstate due hdue
    obtain ⟨-, hsched, hcount⟩ := h.row hv hrow
    have hopen := (mem_openRows.mp (mem_absentRows.mp hrow).1).2
    have hscore : materializeScore (clock row.id) row = some (due.floor : ℚ) := by
      unfold materializeScore
      cases hst : row.state <;> simp_all [TaskState.terminal]
    rw [hscore] at hsched hcount
    exact ⟨hcount, hsched⟩
  processing := by
    intro row hrow hstate
    obtain ⟨-, hsched, hcount⟩ := h.row hv hrow
    have hscore : materializeScore (clock row.id) row = some ((clock row.id).floor : ℚ) := by
      rw [materializeScore, hstate]
    rw [hscore] at hsched hcount
    exact ⟨hcount, hsched⟩
  others _ hid := h.sameAt hv hid
  order := by
    refine ⟨(pushedBy clock r ts).reverse, h.ready, fun id hid => ?_⟩
    exact hv.absent_of_pushed (List.mem_reverse.mp hid)
  inflight := h.inflight
  leases := h.leases
  dead := h.dead
  paused := h.paused
  repaired := h.count.trans (hv.absent_length htable r)

end Assemble

/-- **A full sweep repairs what is absent, touches nothing else, and is idempotent.** On
every server and every journal, with nobody else running: a walk of `ReconcileOnce` from
the zero cursor ends within `N / 1000 + 1` pages, `N` being the number of non-terminal
rows; it leaves what `Swept` says; and a walk right after it changes nothing in Redis and
repairs nothing. -/
theorem full_sweep_repairs {rows : List (Row Body)} (htable : Table rows) {pages : ℕ}
    (hpages : (openRows rows).length / reconcilePageSize < pages) (clock : String → ℚ)
    (r : Redis Body) :
    ∃ res, reconcileWalk clock pages zeroCursor r rows = some res ∧ Swept clock r rows res ∧
      ∀ clock', ∃ res', reconcileWalk clock' pages zeroCursor res.redis res.journal = some res' ∧
        res'.redis = res.redis ∧ res'.repaired.sum = 0 := by
  obtain ⟨res, ts, hres, hv, hrepair, hjournal⟩ := full_walk htable hpages clock r
  have hspec := repairAll_spec clock ts r hv.nodup
  rw [← hrepair] at hspec
  have hswept := hspec.swept htable hv
  refine ⟨res, hres, hswept, fun clock' => ?_⟩
  have hlen : (openRows res.journal).length = (openRows rows).length := by
    have hkeys := congrArg List.length (openKeys_of_settled hjournal)
    rwa [openKeys_eq, openKeys_eq, List.length_map, List.length_map] at hkeys
  obtain ⟨res', ts', hres', hv', hrepair', -⟩ :=
    full_walk (htable.of_settled hjournal) (hlen.symm ▸ hpages) clock' res.redis
  refine ⟨res', hres', ?_⟩
  -- the rows of the second walk are the rows of the first
  have hlive : ∀ t ∈ ts', res.redis.Live t.id := by
    intro t ht
    obtain ⟨row, hrow, heq⟩ := hv'.sound t ht
    obtain ⟨hmem, hst⟩ := mem_openRows.mp hrow
    obtain ⟨old, hold, heqold⟩ := mem_of_settled hjournal hmem
    have hidold : t.id = old.id := by rw [heq, heqold]
    rw [heqold] at hst
    rw [hidold]
    exact hswept.live old (mem_openRows.mpr ⟨hold, hst⟩)
  rw [repairAll_live clock' ts' res.redis hlive] at hrepair'
  exact Prod.mk.inj hrepair'

/-- A task that is ready, one that was lost, and one that was lost while it ran. -/
def sweptRows : List (Row String) :=
  [openRow "ready" 100, openRow "lost" 101, { openRow "crashed" 102 with state := .processing }]

/-- Redis still has the first. -/
def sweptRedis : Redis String := { Redis.empty with immediate := ["ready"] }

theorem full_sweep_repairs_lost :
    ∃ res, reconcileWalk (fun _ => 7 / 2) 1 zeroCursor sweptRedis sweptRows = some res ∧
      res.redis.immediate.count "lost" = 1 ∧ res.redis.scheduled "crashed" = some 3 ∧
      res.repaired.sum = 2 := by
  have htable : Table sweptRows := ⟨by decide +kernel, by decide +kernel⟩
  obtain ⟨res, hres, hswept, -⟩ := full_sweep_repairs htable
    (show (openRows sweptRows).length / reconcilePageSize < 1 by decide +kernel)
    (fun _ => 7 / 2) sweptRedis
  have hlost : openRow "lost" 101 ∈ absentRows sweptRedis sweptRows :=
    mem_absentRows.mpr ⟨mem_openRows.mpr ⟨List.mem_cons_of_mem _ List.mem_cons_self, rfl⟩,
      by decide +kernel⟩
  have hcrashed : { openRow "crashed" 102 with state := .processing } ∈
      absentRows sweptRedis sweptRows :=
    mem_absentRows.mpr ⟨mem_openRows.mpr
      ⟨List.mem_cons_of_mem _ (List.mem_cons_of_mem _ List.mem_cons_self), rfl⟩,
      by decide +kernel⟩
  refine ⟨res, hres, (hswept.ready _ hlost nofun rfl).1, ?_, ?_⟩
  · have hfloor : ((7 / 2 : ℚ).floor : ℚ) = 3 := by
      decide +kernel
    exact (hswept.processing _ hcrashed rfl).2.trans (congrArg some hfloor)
  · rw [hswept.repaired]
    decide +kernel

end ForgeQueue
