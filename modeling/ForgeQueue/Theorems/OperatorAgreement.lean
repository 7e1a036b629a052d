import ForgeQueue.Logic.Durable
import ForgeQueue.Logic.Gaps
import ForgeQueue.Logic.Walk
import ForgeQueue.Model.JsonBody
import ForgeQueue.Model.Sweep

/-!
# The operator and the journal

The API writes to Redis only. Redis and the journal agree when a task is in one of the
hot structures exactly if its row is non-terminal. Under agreement a reconciler has
nothing to do, and after a wipe it rebuilds exactly what was there. The theorem says
which operator actions keep the agreement: those that leave the set of live ids as it
is, so no deletion of a live task, no purge that drops one, and no requeue of a task
that was not live.
-/

namespace ForgeQueue

open Base

variable {Body : Type}

/-- A task is live in Redis if and only if its row is non-terminal. -/
def Agree (r : Redis Body) (rows : List (Row Body)) : Prop :=
  ∀ id, r.Live id ↔ ∃ row ∈ rows, row.id = id ∧ row.state.terminal = false

/-! ## A reconciler on its own -/

theorem agree_iff {r : Redis Body} {rows : List (Row Body)} :
    Agree r rows ↔ ∀ id, r.Live id ↔ ∃ κ ∈ openKeys rows, κ.id = id := by
  have hex : ∀ id, (∃ row ∈ rows, row.id = id ∧ row.state.terminal = false) ↔
      ∃ κ ∈ openKeys rows, κ.id = id := by
    intro id
    constructor
    · rintro ⟨row, hrow, rfl, hst⟩
      exact ⟨row.key, mem_openKeys.mpr ⟨row, hrow, rfl, hst⟩, rfl⟩
    · rintro ⟨κ, hκ, rfl⟩
      obtain ⟨row, hrow, rfl, hst⟩ := mem_openKeys.mp hκ
      exact ⟨row, hrow, rfl, hst⟩
  exact forall_congr' fun id => iff_congr Iff.rfl (hex id)

/-- Rows that look the same agree with the same states of Redis. -/
theorem Agree.congr {r : Redis Body} {rows rows' : List (Row Body)} (h : Agree r rows)
    (hview : rows'.map Row.view = rows.map Row.view) : Agree r rows' := by
  rw [agree_iff, openKeys, hview]
  exact agree_iff.mp h

/-- A page of live tasks changes nothing in Redis. -/
theorem foldl_reconcileRow_live (clock : String → ℚ) (page : List (Row Body)) (s : Sweep Body)
    (h : ∀ t ∈ page, s.redis.Live t.id) :
    (page.foldl (reconcileRow clock) s).redis = s.redis := by
  rw [(foldl_repairAll clock page s).1, repairAll_live clock page s.redis h]

/-- What a tick does. -/
structure TickSpec (s s' : Loop Body) (page : List (Row Body)) : Prop where
  live : ∀ x, s'.redis.Live x ↔ x ∈ page.map Row.id ∨ s.redis.Live x
  same : (∀ t ∈ page, s.redis.Live t.id) → s'.redis = s.redis
  view : s'.journal.map Row.view = s.journal.map Row.view
  cursor : s'.cursor =
    if page.length < reconcilePageSize then zeroCursor else lastKey s.cursor page

theorem reconcileTick_spec (s : Loop Body) (clock : String → ℚ) :
    TickSpec s (reconcileTick s clock) (active s.cursor reconcilePageSize s.journal) := by
  let page := active s.cursor reconcilePageSize s.journal
  let start : Sweep Body :=
    ⟨s.redis, s.journal, 0, s.cursor, decide (page.length < reconcilePageSize)⟩
  obtain ⟨hlive, hview, hnext, hdone⟩ := foldl_reconcileRow clock page start
  refine ⟨hlive, foldl_reconcileRow_live clock page start, hview, ?_⟩
  show (if (page.foldl (reconcileRow clock) start).done then zeroCursor
    else (page.foldl (reconcileRow clock) start).next) = _
  rw [hdone, hnext]
  by_cases hfull : page.length < reconcilePageSize
  · rw [if_pos hfull, if_pos (decide_eq_true hfull)]
  · rw [if_neg hfull, if_neg (by simpa [start] using hfull)]

/-- **Nothing to do.** Under agreement no number of ticks changes Redis. -/
theorem Agree.reconcileLoop {s : Loop Body} (h : Agree s.redis s.journal)
    (ticks : List (String → ℚ)) : (reconcileLoop ticks s).redis = s.redis := by
  induction ticks generalizing s with
  | nil => rfl
  | cons clock ticks ih =>
    have hspec := reconcileTick_spec s clock
    have hsame : (reconcileTick s clock).redis = s.redis := by
      refine hspec.same fun t ht => ?_
      obtain ⟨hmem, hst, -⟩ := mem_active ht
      exact (h t.id).mpr ⟨t, hmem, rfl, hst⟩
    have hagree : Agree (reconcileTick s clock).redis (reconcileTick s clock).journal := by
      rw [hsame]
      exact h.congr hspec.view
    exact (ih hagree).trans hsame

/-! ## Rebuilding after a wipe -/

/-- A walk under way: what is live has a non-terminal row, and every non-terminal row is
live or after the cursor. -/
structure Rebuilding (rows : List (Row Body)) (s : Loop Body) : Prop where
  view : s.journal.map Row.view = rows.map Row.view
  live : ∀ x, s.redis.Live x → ∃ κ ∈ openKeys rows, κ.id = x
  covered : ∀ κ ∈ openKeys rows, s.redis.Live κ.id ∨ s.cursor < κ

/-- **Tick.** A tick keeps the walk going; either it was the last one or the cursor has
moved on. -/
theorem Rebuilding.tick {rows : List (Row Body)} {s : Loop Body} (h : Rebuilding rows s)
    (hids : (rows.map Row.id).Nodup) (clock : String → ℚ) :
    Rebuilding rows (reconcileTick s clock) ∧
      ((∀ κ ∈ openKeys rows, (reconcileTick s clock).redis.Live κ.id) ∨
        remaining rows (reconcileTick s clock).cursor < remaining rows s.cursor) := by
  have hspec := reconcileTick_spec s clock
  have hopen : openKeys s.journal = openKeys rows := by rw [openKeys, h.view, openKeys]
  have hnodup : (s.journal.map Row.id).Nodup := by
    have hkeys : s.journal.map Row.id = rows.map Row.id := by
      have hmap := congrArg (List.map fun v : Key × TaskState => v.1.id) h.view
      rw [List.map_map, List.map_map] at hmap
      exact hmap
    rw [hkeys]
    exact hids
  have hpos : 0 < reconcilePageSize := by decide
  -- a row after the cursor is in the page, or the page is full and ends before it
  have hcover : ∀ κ ∈ openKeys rows, (reconcileTick s clock).redis.Live κ.id ∨
      (¬ (active s.cursor reconcilePageSize s.journal).length < reconcilePageSize ∧
        lastKey s.cursor (active s.cursor reconcilePageSize s.journal) < κ) := by
    intro κ hκ
    rcases h.covered κ hκ with hlive | hlt
    · exact .inl ((hspec.live _).mpr (.inr hlive))
    · rw [← hopen] at hκ
      obtain ⟨row, hrow, rfl, hst⟩ := mem_openKeys.mp hκ
      rcases active_covers hnodup hrow hst hlt hpos with hin | ⟨hfull, hlast⟩
      · exact .inl ((hspec.live _).mpr (.inl (List.mem_map_of_mem hin)))
      · exact .inr ⟨by omega, hlast⟩
  refine ⟨⟨hspec.view.trans h.view, ?_, ?_⟩, ?_⟩
  · intro x hx
    rcases (hspec.live x).mp hx with hpage | hlive
    · obtain ⟨row, hrow, rfl⟩ := List.mem_map.mp hpage
      obtain ⟨hmem, hst, -⟩ := mem_active hrow
      exact ⟨row.key, hopen ▸ mem_openKeys.mpr ⟨row, hmem, rfl, hst⟩, rfl⟩
    · exact h.live x hlive
  · intro κ hκ
    refine (hcover κ hκ).imp_right ?_
    rintro ⟨hfull, hlast⟩
    rw [hspec.cursor, if_neg hfull]
    exact hlast
  · by_cases hdone : (active s.cursor reconcilePageSize s.journal).length < reconcilePageSize
    · left
      intro κ hκ
      exact (hcover κ hκ).resolve_right fun hr => hr.1 hdone
    · right
      rw [hspec.cursor, if_neg hdone]
      have hne : active s.cursor reconcilePageSize s.journal ≠ [] := by
        intro hnil
        rw [hnil] at hdone
        exact hdone hpos
      obtain ⟨row, hrow, hlast⟩ := lastKey_mem s.cursor hne
      obtain ⟨hmem, hst, hlt⟩ := mem_active hrow
      rw [hlast]
      exact remaining_lt (hopen ▸ mem_openKeys.mpr ⟨row, hmem, rfl, hst⟩) hlt

/-- **Walk.** With more ticks than rows are left, every non-terminal row is live at the
end, and nothing else is. -/
theorem Rebuilding.loop {rows : List (Row Body)} (hids : (rows.map Row.id).Nodup)
    (ticks : List (String → ℚ)) : ∀ {s : Loop Body}, Rebuilding rows s →
      ((∀ κ ∈ openKeys rows, s.redis.Live κ.id) ∨ remaining rows s.cursor < ticks.length) →
      Agree (reconcileLoop ticks s).redis rows := by
  induction ticks with
  | nil =>
    intro s h hleft
    have hall := hleft.resolve_right (Nat.not_lt_zero _)
    refine agree_iff.mpr fun id => ⟨h.live id, ?_⟩
    rintro ⟨κ, hκ, rfl⟩
    exact hall κ hκ
  | cons clock ticks ih =>
    intro s h hleft
    obtain ⟨h', hprogress⟩ := h.tick hids clock
    refine ih h' ?_
    rcases hleft with hall | hlt
    · left
      intro κ hκ
      exact ((reconcileTick_spec s clock).live _).mpr (.inr (hall κ hκ))
    · refine hprogress.imp_right fun hless => ?_
      rw [List.length_cons] at hlt
      omega

/-- **Rebuilt.** After a wipe, a walk from the zero cursor brings back exactly the tasks
with a non-terminal row. -/
theorem rebuilt_after_wipe {rows : List (Row Body)} (hids : (rows.map Row.id).Nodup)
    (hafter : ∀ row ∈ rows, zeroCursor < row.key) {ticks : List (String → ℚ)}
    (hticks : rows.length < ticks.length) :
    Agree (reconcileLoop ticks ⟨.empty, rows, zeroCursor⟩).redis rows := by
  refine Rebuilding.loop hids ticks ⟨rfl, ?_, ?_⟩ (.inr ?_)
  · rintro x (hx | hx | hx) <;> cases hx
  · intro κ hκ
    obtain ⟨row, hrow, rfl, -⟩ := mem_openKeys.mp hκ
    exact .inr (hafter row hrow)
  · have hle : remaining rows zeroCursor ≤ rows.length :=
      (List.length_filter_le _ _).trans (openKeys_length_le rows)
    exact lt_of_le_of_lt hle hticks

/-! ## The operator's actions -/

section Actions

variable [BodyCodec Body] [DecidableEq Body]

/-- `takeDead` is about the dead list only. -/
theorem takeDead_live (id x : String) (r : Redis Body) :
    (takeDead id r).1.Live x ↔ r.Live x := by
  rw [takeDead_eq]
  rfl

theorem deleteTask_live (id x : String) (r : Redis Body) :
    (deleteTask id r).Live x ↔ x ≠ id ∧ r.Live x := by
  rw [← takeDead_live id x r]
  show (x ∈ (takeDead id r).1.immediate.filter (· ≠ id) ∨
    (del (takeDead id r).1.inflight id x).isSome ∨
    (del (takeDead id r).1.scheduled id x).isSome) ↔ _
  by_cases hx : x = id
  · simp [hx]
  · simp [hx, Redis.Live]

omit [DecidableEq Body] in
theorem requeueBody_live (id x : String) (resetAttempts : Bool) (r : Redis Body) :
    (requeueBody id resetAttempts r).Live x ↔ x = id ∨ r.Live x := by
  have htx : ∀ r : Redis Body, (requeueTx id r).Live x ↔ x = id ∨ r.Live x := by
    intro r
    show (x ∈ id :: r.immediate ∨ (del r.inflight id x).isSome ∨
      (del r.scheduled id x).isSome) ↔ _
    by_cases hx : x = id
    · simp [hx]
    · simp [hx, Redis.Live]
  unfold requeueBody
  split
  · split
    · exact htx _
    · exact htx r
  · exact htx r

/-- A `requeue` finds nothing exactly if there is neither a body nor a dead entry. -/
theorem requeue_eq_false_iff (id : String) (resetAttempts : Bool) (r : Redis Body) :
    (requeue id resetAttempts r).2 = false ↔
      r.task id = none ∧ ∀ b ∈ r.dead, deadOf id b = false := by
  have hmatch : (matching id r.dead).head? = none ↔ ∀ b ∈ r.dead, deadOf id b = false := by
    rw [List.head?_eq_none_iff, matching, List.filter_eq_nil_iff]
    simp
  rw [requeue, takeDead_eq, ← hmatch]
  have htask : (cut (matching id r.dead) r).task = r.task := rfl
  simp only [htask]
  cases r.task id with
  | some body => simp
  | none => cases (matching id r.dead).head? <;> simp

/-- A `requeue` that finds the task makes it live; one that does not changes nothing about
liveness. -/
theorem requeue_live (id x : String) (resetAttempts : Bool) (r : Redis Body) :
    (requeue id resetAttempts r).1.Live x ↔
      ((requeue id resetAttempts r).2 = true ∧ x = id) ∨ r.Live x := by
  rw [← takeDead_live id x r]
  unfold requeue
  split
  rename_i r' deadBody htake
  rw [htake]
  split
  · simp only [requeueBody_live, true_and]
  · split
    · simp
    · simp only [requeueBody_live, true_and]
      rfl

/-- The condition under which an action keeps the live ids as they are. -/
def ApiOp.Harmless (r : Redis Body) : ApiOp → Prop
  | .deleteJob id | .cancelDelayed id | .deleteDLQ id => ¬ r.Live id
  | .purgeQueue => ∀ id ∈ r.immediate, (r.inflight id).isSome ∨ (r.scheduled id).isSome
  | .purgeDLQ => True
  | .retryJob id | .requeueJob id | .retryDLQ id =>
    r.Live id ∨ (r.task id = none ∧ ∀ b ∈ r.dead, deadOf id b = false)

/-- A deletion keeps the live ids exactly if its id is not live. -/
theorem deleteHandler_harmless (id : String) (r : Redis Body) :
    (∀ x, (deleteHandler id r).1.Live x ↔ r.Live x) ↔ ¬ r.Live id := by
  have hlive : ∀ x, (deleteHandler id r).1.Live x ↔ x ≠ id ∧ r.Live x :=
    fun x => deleteTask_live id x r
  constructor
  · intro h hid
    exact ((hlive id).mp ((h id).mpr hid)).1 rfl
  · intro hid x
    rw [hlive]
    refine ⟨And.right, fun hx => ⟨?_, hx⟩⟩
    rintro rfl
    exact hid hx

/-- A requeue keeps the live ids exactly if its id is live already or is found nowhere. -/
theorem requeueHandler_harmless (noun id : String) (resetAttempts : Bool) (r : Redis Body) :
    (∀ x, (requeueHandler noun id resetAttempts r).1.Live x ↔ r.Live x) ↔
      (r.Live id ∨ (r.task id = none ∧ ∀ b ∈ r.dead, deadOf id b = false)) := by
  have hfst : (requeueHandler noun id resetAttempts r).1 = (requeue id resetAttempts r).1 := by
    unfold requeueHandler
    split <;> simp_all
  rw [hfst, ← requeue_eq_false_iff id resetAttempts r]
  constructor
  · intro h
    cases hok : (requeue id resetAttempts r).2 with
    | false => exact .inr rfl
    | true => exact .inl ((h id).mp ((requeue_live id id resetAttempts r).mpr (.inl ⟨hok, rfl⟩)))
  · intro h x
    rw [requeue_live]
    refine ⟨?_, .inr⟩
    rintro (⟨hok, rfl⟩ | hx)
    · rcases h with hid | hfalse
      · exact hid
      · rw [hok] at hfalse; cases hfalse
    · exact hx

/-- **Actions.** An action keeps the live ids exactly if it is harmless. -/
theorem ApiOp.live_iff (op : ApiOp) (r : Redis Body) :
    (∀ x, (op.run r).1.Live x ↔ r.Live x) ↔ op.Harmless r := by
  cases op with
  | deleteJob id => exact deleteHandler_harmless id r
  | cancelDelayed id => exact deleteHandler_harmless id r
  | deleteDLQ id => exact deleteHandler_harmless id r
  | purgeQueue =>
    have hlive : ∀ x, (ForgeQueue.purgeQueue r).1.Live x ↔
        (r.inflight x).isSome ∨ (r.scheduled x).isSome := by
      intro x
      show (x ∈ [] ∨ (r.inflight x).isSome ∨ (r.scheduled x).isSome) ↔ _
      simp
    constructor
    · intro h id hid
      exact (hlive id).mp ((h id).mpr (.inl hid))
    · intro h x
      refine (hlive x).trans ⟨fun hx => .inr hx, ?_⟩
      rintro (hx | hx)
      · exact h x hx
      · exact hx
  | purgeDLQ => exact ⟨fun _ => trivial, fun _ _ => Iff.rfl⟩
  | retryJob id => exact requeueHandler_harmless _ id true r
  | requeueJob id => exact requeueHandler_harmless _ id false r
  | retryDLQ id => exact requeueHandler_harmless _ id true r

/-- Redis and the journal agree, so sweeps insert nothing, however many, and after a wipe
they bring back exactly what was live. -/
structure InAgreement (r : Redis Body) (rows : List (Row Body)) : Prop where
  agree : Agree r rows
  quiet : ∀ ticks cursor, (reconcileLoop ticks ⟨r, rows, cursor⟩).redis = r
  rebuilt : ∀ ticks : List (String → ℚ), rows.length < ticks.length → ∀ id,
    (reconcileLoop ticks ⟨.empty, rows, zeroCursor⟩).redis.Live id ↔ r.Live id

/-- **Operator actions and the journal.** From every state in which Redis and the journal
agree, an operator action leaves them in agreement if and only if it deletes no live task,
purges no task that is in the ready list only, and requeues no task that is found but not
live. -/
theorem api_keeps_agreement_iff (op : ApiOp) {r : Redis Body} {rows : List (Row Body)}
    (hids : (rows.map Row.id).Nodup) (hafter : ∀ row ∈ rows, zeroCursor < row.key)
    (h : Agree r rows) : InAgreement (op.run r).1 rows ↔ op.Harmless r := by
  rw [← op.live_iff r]
  constructor
  · intro h' x
    exact (h'.agree x).trans (h x).symm
  · intro hsame
    have hagree : Agree (op.run r).1 rows := fun x => (hsame x).trans (h x)
    refine ⟨hagree, fun ticks cursor => ?_, fun ticks hticks id => ?_⟩
    · exact Agree.reconcileLoop (s := ⟨(op.run r).1, rows, cursor⟩) hagree ticks
    · exact (rebuilt_after_wipe hids hafter hticks id).trans (hagree id).symm

end Actions

/-- The ready job of the sample task. -/
def readyJob : Redis JsonBody :=
  (Engine.init.execAll [⟨0, .routeBody sampleArgs⟩, ⟨0, .routePush sampleArgs 0⟩]).redis

/-- The sample task, dead-lettered. -/
def buriedJob : Redis JsonBody :=
  { (Redis.empty : Redis JsonBody) with
    dead := [marshal (routeData sampleArgs)]
    task := put nothing "job" (marshal (routeData sampleArgs)) }

/-- Its row in a given state. -/
def jobRow (state : TaskState) : Row JsonBody :=
  { (routeRow 100 sampleArgs : Row JsonBody) with state := state, createdAt := 100 }

theorem readyJob_agrees : Agree readyJob [jobRow .enqueued] := by
  intro id
  show (id ∈ ["job"] ∨ (none : Option ℚ).isSome ∨ (none : Option ℚ).isSome) ↔
    ∃ row ∈ [jobRow .enqueued], row.id = id ∧ row.state.terminal = false
  constructor
  · intro hlive
    have hid : id = "job" := by simpa using hlive
    exact ⟨_, List.mem_singleton.mpr rfl, hid.symm, rfl⟩
  · rintro ⟨row, hrow, rfl, -⟩
    rw [List.mem_singleton.mp hrow]
    exact .inl (List.mem_singleton.mpr rfl)

theorem buriedJob_agrees : Agree buriedJob [jobRow .dead] := by
  intro id
  show (id ∈ ([] : List String) ∨ (none : Option ℚ).isSome ∨ (none : Option ℚ).isSome) ↔
    ∃ row ∈ [jobRow .dead], row.id = id ∧ row.state.terminal = false
  simp [jobRow, TaskState.terminal]

/-- A requeue of the ready job keeps the agreement. -/
theorem api_keeps_agreement_iff_requeue_ready :
    readyJob.Live "job" ∧
      InAgreement (ApiOp.run readyJob (.requeueJob "job")).1 [jobRow .enqueued] := by
  have hlive : readyJob.Live "job" := by decide +kernel
  refine ⟨hlive, (api_keeps_agreement_iff (.requeueJob "job") ?_ ?_ readyJob_agrees).mpr ?_⟩
  · exact List.nodup_singleton _
  · intro row hrow
    rw [List.mem_singleton.mp hrow]
    decide +kernel
  · exact .inl hlive

/-- **Not in agreement.** A deleted job is back after the next sweep, and a job retried
from the dead list is not rebuilt after a wipe. -/
theorem operator_actions_break_agreement :
    (Agree readyJob [jobRow .enqueued] ∧
      ¬ Agree (ApiOp.run readyJob (.deleteJob "job")).1 [jobRow .enqueued] ∧
      (reconcileLoop [fun _ => 200]
        ⟨(ApiOp.run readyJob (.deleteJob "job")).1, [jobRow .enqueued],
          zeroCursor⟩).redis.Live "job") ∧
    (Agree buriedJob [jobRow .dead] ∧
      ¬ Agree (ApiOp.run buriedJob (.retryDLQ "job")).1 [jobRow .dead] ∧
      ¬ (reconcileLoop [fun _ => 200, fun _ => 201]
        ⟨.empty, [jobRow .dead], zeroCursor⟩).redis.Live "job") := by
  refine ⟨⟨readyJob_agrees, ?_, by decide +kernel⟩, ⟨buriedJob_agrees, ?_, by decide +kernel⟩⟩
  · intro h
    have hlive := (h "job").mpr ⟨_, List.mem_singleton.mpr rfl, rfl, rfl⟩
    revert hlive
    decide +kernel
  · intro h
    have hlive : (ApiOp.run buriedJob (.retryDLQ "job")).1.Live "job" := by decide +kernel
    obtain ⟨row, hrow, -, hst⟩ := (h "job").mp hlive
    rw [List.mem_singleton.mp hrow] at hst
    cases hst

end ForgeQueue
