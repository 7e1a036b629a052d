import Mathlib
import ForgeQueue.Logic.Counts
import ForgeQueue.Model.Dashboard
import ForgeQueue.Model.JsonBody
import ForgeQueue.Theorems.Conservation

/-!
# The depths add up

The dead list holds bodies, not ids, and the depth gauges count its entries. In the core
engine every entry is the body of a task that was enqueued and used up its budget
(`DeadKnown`), so in one state the four depths together with the acknowledged tasks are all
the tasks there ever were, and the dead-letter page lists exactly the tasks it is for.

A sample reads the depths one after the other. It is off by what happens meanwhile, since an
event moves one task.
-/

namespace ForgeQueue

open Base

/-- The ids of the successful enqueues, newest first. -/
def enqueuedIds (log : List Event) : List String :=
  log.filterMap fun ev => match ev with
    | .enqueued a => some a.id
    | _ => none

theorem mem_enqueuedIds (log : List Event) (id : String) :
    id ∈ enqueuedIds log ↔ ∃ a, .enqueued a ∈ log ∧ a.id = id := by
  unfold enqueuedIds
  rw [List.mem_filterMap]
  constructor
  · rintro ⟨ev, hev, h⟩
    cases ev with
    | enqueued a => exact ⟨a, hev, Option.some.inj h⟩
    | _ => cases h
  · rintro ⟨a, ha, rfl⟩
    exact ⟨_, ha, rfl⟩

section

variable {Body : Type} [BodyCodec Body]

/-- Every dead entry is read as the body of some task. -/
def DeadKnown (r : Redis Body) : Prop := ∀ b ∈ r.dead, ∃ id, deadOf id b = true

/-- A body is read as that of one task. -/
theorem deadOf_unique {id id' : String} {b : Body} (h : deadOf id b = true)
    (h' : deadOf id' b = true) : id = id' := by
  simp only [deadOf, decide_eq_true_eq] at h h'
  exact Option.some.inj (h.symm.trans h')

/-- Counted by the tasks they are read as, the entries are the whole list. -/
theorem sum_countP_deadOf (ids : Finset String) (bodies : List Body)
    (h : ∀ b ∈ bodies, ∃ id ∈ ids, deadOf id b = true) :
    ∑ id ∈ ids, bodies.countP (deadOf id) = bodies.length := by
  induction bodies with
  | nil => simp
  | cons b rest ih =>
    obtain ⟨id, hid, hb⟩ := h b List.mem_cons_self
    have hone : ∑ x ∈ ids, (if deadOf x b = true then 1 else 0) = 1 := by
      rw [Finset.sum_eq_single id]
      · rw [if_pos hb]
      · intro x _ hx
        exact if_neg fun hxb => hx (deadOf_unique hxb hb)
      · exact fun hni => absurd hid hni
    simp only [List.countP_cons, Finset.sum_add_distrib, hone, List.length_cons]
    rw [ih fun b hb => h b (List.mem_cons_of_mem _ hb)]

end

variable {Body : Type} [TaskCodec Body]

/-- What a failed attempt of a leased task pushes on the dead list is its body. -/
theorem DeadKnown.retry {r : Redis Body} {id l : String} {j : Job String} (h : DeadKnown r)
    (hh : Holds r id j) (hp : j.place = .leased l) (now base cap : ℚ) :
    DeadKnown (retryOrBury now base cap id (r.release id)).1 := by
  obtain ⟨b, t, hb, hdoc, -⟩ := hh.body (by simp [hp]) (by simp [hp])
  obtain ⟨b', -, heq⟩ := retryOrBury_doc now base cap id (r.release id) hb hdoc
  obtain ⟨_, -, -, hlast, -, hnew⟩ := hh.retry hp now base cap
  by_cases hexh : t.Exhausted
  swap
  · rw [heq, if_neg hexh]
    exact h
  rw [if_pos hexh] at heq
  rw [heq] at hlast hnew ⊢
  intro x hx
  rcases List.mem_cons.mp hx with rfl | hmem
  · -- the new entry is the one by which the count of the task went up
    have hbefore := hh.dead
    have hafter := hnew.dead
    have hbur : (j.fail (decide j.lastAttempt)).place = .buried := by
      simp [Job.fail, hlast.mp rfl]
    rw [if_pos hbur, List.countP_cons] at hafter
    rw [if_neg (by simp [hp])] at hbefore
    refine ⟨id, ?_⟩
    by_contra hno
    have hzero : r.dead.countP (deadOf id) + 0 = 1 := by simpa [hno] using hafter
    omega
  · exact h x hmem

/-- Histories in which every id is enqueued once, and states whose dead entries are known. -/
structure Accounted (r : Redis Body) (log : List Event) : Prop where
  refines : Refines r log
  nodup : (enqueuedIds log).Nodup
  dead : DeadKnown r

theorem Accounted.init : Accounted (Redis.empty : Redis Body) [] where
  refines := .init
  nodup := List.nodup_nil
  dead b hb := by cases hb

/-- **Step.** -/
theorem Accounted.effect {r r' : Redis Body} {log : List Event} {ev : Event}
    (h : Accounted r log) (hok : CoreOk log ev) (heff : Effect r ev r') :
    Accounted r' (ev :: log) := by
  refine ⟨h.refines.effect hok heff, ?_, ?_⟩
  · cases ev with
    | enqueued a =>
      refine List.nodup_cons.mpr ⟨?_, h.nodup⟩
      intro hmem
      obtain ⟨a', ha', hid⟩ := (mem_enqueuedIds log a.id).mp hmem
      exact hok.2 a' ha' hid
    | _ => exact h.nodup
  · cases heff with
    | enqueued a clock =>
      show DeadKnown (routePush _ _ _)
      unfold DeadKnown
      rw [routePush_dead]
      exact h.dead
    | failed t l now base cap _ hl =>
      exact h.dead.retry (h.refines.holds t) ((h.refines.holds t).place_leased hl) now base cap
    | reclaimed t x now base cap hx _ =>
      obtain ⟨l, hp⟩ := (h.refines.holds t).inflight.mp (by rw [hx]; rfl)
      exact h.dead.retry (h.refines.holds t) hp now base cap
    | materialized _ _ _ _ => exact hok.elim
    | requeued _ => exact hok.elim
    | deleted _ => exact hok.elim
    | wiped => exact hok.elim
    | _ => exact h.dead

/-- **Run.** -/
theorem core_accounted {cs : List (Call Body)} {e : Engine Body}
    (h : EngineRun CoreCall .init cs e) : Accounted e.redis e.log :=
  EngineRun.invariant Accounted (fun _ _ hok => hok.allowed)
    (fun _ _ _ _ hok heff ha => ha.effect hok heff) h .init

/-- The enqueued tasks as a set. -/
def Engine.tasks (e : Engine Body) : Finset String := (enqueuedIds e.log).toFinset

/-- Whatever is found in a key was enqueued. -/
theorem Accounted.mem_tasks {e : Engine Body} (h : Accounted e.redis e.log) {id : String}
    (hp : (jobOf e.log id).place ≠ .absent) : id ∈ e.tasks :=
  List.mem_toFinset.mpr ((mem_enqueuedIds e.log id).mpr ((h.refines.born id).mp hp))

/-- What the four commands count. -/
inductive Gauge where
  | ready
  | inflight
  | scheduled
  | dead

/-- The tasks a command counts, by their place. -/
def Gauge.counts : Gauge → Place String → Bool
  | .ready, .ready => true
  | .inflight, .leased _ => true
  | .scheduled, .waiting => true
  | .dead, .buried => true
  | _, _ => false

/-- The tasks of a history that are in a place of `q`. -/
def tasksWhere (q : Place String → Bool) (log : List Event) : Finset String :=
  (enqueuedIds log).toFinset.filter fun id => q (jobOf log id).place = true

/-- The tasks of a history that a command counts. -/
def Gauge.tasks (g : Gauge) (log : List Event) : Finset String := tasksWhere g.counts log

omit [TaskCodec Body] in
theorem Gauge.card_tasks (g : Gauge) (e : Engine Body) : (g.tasks e.log).card =
    ∑ id ∈ e.tasks, if g.counts (jobOf e.log id).place = true then 1 else 0 :=
  Finset.card_filter _ _

/-! A key has one entry for each task in its place. -/

theorem Accounted.ready_depth {e : Engine Body} (h : Accounted e.redis e.log) :
    e.redis.immediate.length = (Gauge.ready.tasks e.log).card := by
  have hmem : ∀ id ∈ (e.redis.immediate : Multiset String), id ∈ e.tasks := fun id hid =>
    h.mem_tasks (by rw [(h.refines.holds id).place_ready (Multiset.mem_coe.mp hid)]; simp)
  have hsum : ∑ id ∈ e.tasks, e.redis.immediate.count id = e.redis.immediate.length := by
    simpa using Multiset.sum_count_eq_card hmem
  rw [Gauge.card_tasks, ← hsum]
  refine Finset.sum_congr rfl fun id _ => ?_
  rw [(h.refines.holds id).ready]
  cases (jobOf e.log id).place <;> simp [Gauge.counts]

/-- A sorted set whose members are the tasks in one place. -/
theorem Accounted.members_depth {e : Engine Body} (h : Accounted e.redis e.log) (g : Gauge)
    {m : String → Option ℚ} {members : List String} (hm : Members m members)
    (hplace : ∀ id, (m id).isSome = true ↔ g.counts (jobOf e.log id).place = true) :
    members.length = (g.tasks e.log).card := by
  rw [← List.toFinset_card_of_nodup hm.nodup]
  congr 1
  ext id
  rw [List.mem_toFinset, hm.mem, hplace, Gauge.tasks, tasksWhere, Finset.mem_filter]
  refine ⟨fun hg => ⟨h.mem_tasks ?_, hg⟩, fun hg => hg.2⟩
  intro hp
  rw [hp] at hg
  cases g <;> cases hg

theorem Accounted.inflight_depth {e : Engine Body} (h : Accounted e.redis e.log)
    {members : List String} (hm : Members e.redis.inflight members) :
    members.length = (Gauge.inflight.tasks e.log).card := by
  refine h.members_depth .inflight hm fun id => (h.refines.holds id).inflight.trans ?_
  cases (jobOf e.log id).place <;> simp [Gauge.counts]

theorem Accounted.scheduled_depth {e : Engine Body} (h : Accounted e.redis e.log)
    {members : List String} (hm : Members e.redis.scheduled members) :
    members.length = (Gauge.scheduled.tasks e.log).card := by
  refine h.members_depth .scheduled hm fun id => (h.refines.holds id).scheduled.trans ?_
  cases (jobOf e.log id).place <;> simp [Gauge.counts]

theorem Accounted.dead_depth {e : Engine Body} (h : Accounted e.redis e.log) :
    e.redis.dead.length = (Gauge.dead.tasks e.log).card := by
  have hsum := sum_countP_deadOf e.tasks e.redis.dead fun b hb => by
    obtain ⟨id, hid⟩ := h.dead b hb
    refine ⟨id, h.mem_tasks ?_, hid⟩
    intro hp
    exact absurd hid (by simp [(h.refines.holds id).no_entry (by simp [hp]) b hb])
  rw [Gauge.card_tasks, ← hsum]
  refine Finset.sum_congr rfl fun id _ => ?_
  rw [(h.refines.holds id).dead]
  cases (jobOf e.log id).place <;> simp [Gauge.counts]

/-- In one state every enqueued task is counted once, or it was acknowledged. -/
theorem Accounted.conserved {e : Engine Body} (h : Accounted e.redis e.log) :
    (Gauge.ready.tasks e.log).card + (Gauge.inflight.tasks e.log).card +
      (Gauge.scheduled.tasks e.log).card + (Gauge.dead.tasks e.log).card +
      (enqueuedIds e.log).countP (wasAcked e.log) = (enqueuedIds e.log).length := by
  have hacked : (enqueuedIds e.log).countP (wasAcked e.log) =
      ∑ id ∈ e.tasks, if wasAcked e.log id = true then 1 else 0 := by
    rw [← Finset.card_filter, List.countP_eq_length_filter,
      ← List.toFinset_card_of_nodup (h.nodup.filter _), List.toFinset_filter]
    rfl
  rw [Gauge.card_tasks, Gauge.card_tasks, Gauge.card_tasks, Gauge.card_tasks, hacked,
    ← Finset.sum_add_distrib, ← Finset.sum_add_distrib, ← Finset.sum_add_distrib,
    ← Finset.sum_add_distrib, ← List.toFinset_card_of_nodup h.nodup, Finset.card_eq_sum_ones]
  refine Finset.sum_congr rfl fun id hid => ?_
  have hborn : (jobOf e.log id).place ≠ .absent :=
    (h.refines.born id).mpr ((mem_enqueuedIds e.log id).mp (List.mem_toFinset.mp hid))
  have hack : wasAcked e.log id = true ↔ (jobOf e.log id).place = .finished :=
    (wasAcked_iff _ _).trans (h.refines.acked id).symm
  simp only [hack]
  cases hp : (jobOf e.log id).place with
  | absent => exact absurd hp hborn
  | _ => simp [Gauge.counts]

/-! ## Between the commands -/

/-- An event changes the number of tasks in given places by one at most. -/
theorem tasksWhere_cons (q : Place String → Bool) (ev : Event) (log : List Event) :
    (tasksWhere q (ev :: log)).card ≤ (tasksWhere q log).card + 1 ∧
      (tasksWhere q log).card ≤ (tasksWhere q (ev :: log)).card + 1 := by
  have hsame : ∀ id, ev.subject ≠ some id →
      (id ∈ tasksWhere q (ev :: log) ↔ id ∈ tasksWhere q log) := by
    intro id hs
    have hids : id ∈ enqueuedIds (ev :: log) ↔ id ∈ enqueuedIds log := by
      rw [mem_enqueuedIds, mem_enqueuedIds]
      refine exists_congr fun a => and_congr_left fun hid => ?_
      refine ⟨fun hm => (List.mem_cons.mp hm).resolve_left ?_, List.mem_cons_of_mem _⟩
      rintro rfl
      exact hs (congrArg some hid)
    unfold tasksWhere
    rw [Finset.mem_filter, Finset.mem_filter, List.mem_toFinset, List.mem_toFinset, hids,
      jobOf_cons, advance_of_ne hs]
  cases hsub : ev.subject with
  | none =>
    have heq : tasksWhere q (ev :: log) = tasksWhere q log := by
      ext id
      exact hsame id (by simp [hsub])
    rw [heq]
    omega
  | some x =>
    have hne : ∀ id, id ≠ x → ev.subject ≠ some id := fun id hid => by
      rw [hsub]
      exact fun heq => hid (Option.some.inj heq).symm
    have h₁ : tasksWhere q (ev :: log) ⊆ insert x (tasksWhere q log) := fun id hid => by
      by_cases hx : id = x
      · exact Finset.mem_insert.mpr (.inl hx)
      · exact Finset.mem_insert_of_mem ((hsame id (hne id hx)).mp hid)
    have h₂ : tasksWhere q log ⊆ insert x (tasksWhere q (ev :: log)) := fun id hid => by
      by_cases hx : id = x
      · exact Finset.mem_insert.mpr (.inl hx)
      · exact Finset.mem_insert_of_mem ((hsame id (hne id hx)).mpr hid)
    exact ⟨(Finset.card_le_card h₁).trans (Finset.card_insert_le _ _),
      (Finset.card_le_card h₂).trans (Finset.card_insert_le _ _)⟩

/-- Places that exclude each other have their tasks to themselves. -/
theorem card_tasksWhere_or {q q' : Place String → Bool} (h : ∀ p, q p = true → q' p = false)
    (log : List Event) : (tasksWhere (fun p => q p || q' p) log).card =
      (tasksWhere q log).card + (tasksWhere q' log).card := by
  unfold tasksWhere
  simp only [Bool.or_eq_true]
  rw [Finset.filter_or, Finset.card_union_of_disjoint]
  refine Finset.disjoint_filter.mpr fun id _ hq hq' => ?_
  rw [h _ hq] at hq'
  cases hq'

omit [TaskCodec Body] in
/-- The history of a run goes on from where it was. -/
theorem Engine.log_suffix [BodyCodec Body] {ok : Engine Body → Call Body → Prop}
    {cs : List (Call Body)} {e e' : Engine Body} (h : EngineRun ok e cs e') :
    ∃ evs, e'.log = evs ++ e.log := by
  refine Run.invariant (fun x : Engine Body => ∃ evs, x.log = evs ++ e.log) ?_ h ⟨[], rfl⟩
  rintro s c s' - hst ⟨evs, hevs⟩
  obtain rfl := Option.some.inj hst
  refine ⟨(s.redis.events c.now c.op).reverse ++ evs, ?_⟩
  rw [List.append_assoc, ← hevs]
  rfl

/-- Over a run it changes by the number of events at most. -/
theorem tasksWhere_run (q : Place String → Bool) {ok : Engine Body → Call Body → Prop}
    {cs : List (Call Body)} {e e' : Engine Body} (h : EngineRun ok e cs e') :
    |((tasksWhere q e'.log).card : ℤ) - (tasksWhere q e.log).card| ≤
      (e'.log.length : ℤ) - e.log.length := by
  obtain ⟨evs, hevs⟩ := Engine.log_suffix h
  rw [hevs]
  clear hevs h
  induction evs with
  | nil => simp
  | cons ev evs ih =>
    obtain ⟨h₁, h₂⟩ := tasksWhere_cons q ev (evs ++ e.log)
    rw [abs_le] at ih ⊢
    rw [List.cons_append, List.length_cons]
    omega

/-- What the last two commands count together. -/
theorem card_scheduled_dead (log : List Event) :
    (tasksWhere (fun p => Gauge.scheduled.counts p || Gauge.dead.counts p) log).card =
      (Gauge.scheduled.tasks log).card + (Gauge.dead.tasks log).card :=
  card_tasksWhere_or (fun p => by cases p <;> simp [Gauge.counts]) log

/-- What the last three commands count together. -/
theorem card_inflight_scheduled_dead (log : List Event) :
    (tasksWhere (fun p => Gauge.inflight.counts p ||
        (Gauge.scheduled.counts p || Gauge.dead.counts p)) log).card =
      (Gauge.inflight.tasks log).card +
        ((Gauge.scheduled.tasks log).card + (Gauge.dead.tasks log).card) := by
  rw [← card_scheduled_dead]
  exact card_tasksWhere_or (fun p => by cases p <;> simp [Gauge.counts]) log

/-- **The depths add up.** Sampled by four commands of a core run, one after the other and
with any other calls in between, the four depths and the acknowledged tasks add up to the
enqueued tasks up to the number of events that happen during the sample. A sample during
which nothing happens is exact. -/
theorem depths_conserved {cs₀ cs₁ cs₂ cs₃ : List (Call Body)} {e₀ e₁ e₂ e₃ : Engine Body}
    (h₀ : EngineRun CoreCall .init cs₀ e₀) (h₁ : EngineRun CoreCall e₀ cs₁ e₁)
    (h₂ : EngineRun CoreCall e₁ cs₂ e₂) (h₃ : EngineRun CoreCall e₂ cs₃ e₃)
    {inflight scheduled : List String} (hi : Members e₁.redis.inflight inflight)
    (hs : Members e₂.redis.scheduled scheduled) {d : QueueDepths}
    (hd : depths e₀.redis inflight scheduled e₃.redis = d) :
    |((d.ready + d.inflight + d.scheduled + d.dead +
        (enqueuedIds e₀.log).countP (wasAcked e₀.log) : ℕ) : ℤ) - (enqueuedIds e₀.log).length| ≤
      (e₃.log.length : ℤ) - e₀.log.length := by
  subst hd
  have hsum := (core_accounted h₀).conserved
  have hready := (core_accounted h₀).ready_depth
  have hinflight := (core_accounted (h₀.append h₁)).inflight_depth hi
  have hscheduled := (core_accounted ((h₀.append h₁).append h₂)).scheduled_depth hs
  have hdead := (core_accounted (((h₀.append h₁).append h₂).append h₃)).dead_depth
  -- an event counts for one stretch only, and there for one task of those still to be read
  have h₁' := tasksWhere_run (fun p => Gauge.inflight.counts p ||
    (Gauge.scheduled.counts p || Gauge.dead.counts p)) h₁
  have h₂' := tasksWhere_run (fun p => Gauge.scheduled.counts p || Gauge.dead.counts p) h₂
  have h₃' : |((Gauge.dead.tasks e₃.log).card : ℤ) - (Gauge.dead.tasks e₂.log).card| ≤
      (e₃.log.length : ℤ) - e₂.log.length := tasksWhere_run Gauge.dead.counts h₃
  rw [card_inflight_scheduled_dead, card_inflight_scheduled_dead] at h₁'
  rw [card_scheduled_dead, card_scheduled_dead] at h₂'
  unfold depths
  dsimp only
  rw [hready, hinflight, hscheduled, hdead]
  rw [abs_le] at h₁' h₂' h₃' ⊢
  omega

/-- The task is buried after its second lost lease. -/
def burialCalls : List (Call JsonBody) :=
  [⟨0, .routeBody sampleArgs⟩, ⟨0, .routePush sampleArgs 0⟩,
    ⟨1, .claimBatch ["L1"] 31⟩, ⟨40, .requeueOrDead "job" "" 1 60⟩,
    ⟨50, .promoteTask "job"⟩, ⟨51, .claimBatch ["L2"] 81⟩,
    ⟨90, .requeueOrDead "job" "" 1 60⟩]

theorem burialCalls_run :
    EngineRun CoreCall .init burialCalls (Engine.init.execAll burialCalls) :=
  core_run_enqueue (.cons trivial rfl (.cons trivial rfl (.cons trivial rfl
    (.cons trivial rfl (.cons trivial rfl .nil)))))

/-- The states of `burialCalls` after so many of the calls. -/
def burialAfter (n : ℕ) : Engine JsonBody := Engine.init.execAll (burialCalls.take n)

/-- A key of a queue with one task has that task, if anything. -/
theorem members_job {cs : List (Call JsonBody)} {e : Engine JsonBody}
    (hrun : EngineRun CoreCall .init cs e) (hids : enqueuedIds e.log = ["job"])
    {m : String → Option ℚ} (hjob : (m "job").isSome = true)
    (hborn : ∀ id, (m id).isSome = true → (jobOf e.log id).place ≠ .absent) :
    Members m ["job"] := by
  refine ⟨List.nodup_singleton _, fun id => ?_⟩
  rw [List.mem_singleton]
  constructor
  · rintro rfl
    exact hjob
  · intro hid
    have hmem := (mem_enqueuedIds e.log id).mpr (((core_refines hrun).born id).mp (hborn id hid))
    rw [hids] at hmem
    exact List.mem_singleton.mp hmem

/-- Each of the four commands finds the one task there is, which moves on in between: three
too many, with five events. -/
theorem depths_conserved_moving :
    depths (burialAfter 2).redis ["job"] ["job"] (burialAfter 7).redis = ⟨1, 1, 1, 1⟩ ∧
      |((1 + 1 + 1 + 1 : ℕ) : ℤ) - 1| ≤
        ((burialAfter 7).log.length : ℤ) - (burialAfter 2).log.length := by
  have h₀ : EngineRun CoreCall .init (burialCalls.take 2) (burialAfter 2) :=
    core_run_enqueue .nil
  have h₁ : EngineRun CoreCall (burialAfter 2) [⟨1, .claimBatch ["L1"] 31⟩] (burialAfter 3) :=
    .cons trivial rfl .nil
  have h₂ : EngineRun CoreCall (burialAfter 3) [⟨40, .requeueOrDead "job" "" 1 60⟩]
      (burialAfter 4) := .cons trivial rfl .nil
  have h₃ : EngineRun CoreCall (burialAfter 4) (burialCalls.drop 4) (burialAfter 7) :=
    .cons trivial rfl (.cons trivial rfl (.cons trivial rfl .nil))
  have hi : Members (burialAfter 3).redis.inflight ["job"] := by
    refine members_job (h₀.append h₁) (by decide +kernel) (by decide +kernel) fun id hid => ?_
    obtain ⟨l, hl⟩ := ((core_refines (h₀.append h₁)).holds id).inflight.mp hid
    simp [hl]
  have hs : Members (burialAfter 4).redis.scheduled ["job"] := by
    have hrun := (h₀.append h₁).append h₂
    refine members_job hrun (by decide +kernel) (by decide +kernel) fun id hid => ?_
    simp [((core_refines hrun).holds id).scheduled.mp hid]
  have hd : depths (burialAfter 2).redis ["job"] ["job"] (burialAfter 7).redis =
      ⟨1, 1, 1, 1⟩ := by
    decide +kernel
  have hsum := depths_conserved h₀ h₁ h₂ h₃ hi hs hd
  have hack : (enqueuedIds (burialAfter 2).log).countP (wasAcked (burialAfter 2).log) = 0 := by
    decide +kernel
  have hone : (enqueuedIds (burialAfter 2).log).length = 1 := by decide +kernel
  rw [hack, hone] at hsum
  exact ⟨hd, hsum⟩

/-! ## The dead-letter page -/

omit [TaskCodec Body] in
/-- The ids on the page. -/
theorem dlq_ids [BodyCodec Body] (now : ℚ) (r : Redis Body) :
    (dlq now r).map (·.jobID) = r.dead.filterMap fun b => (apiUnmarshal b).map (·.id) := by
  simp [dlq, List.map_filterMap, Function.comp_def]

omit [TaskCodec Body] in
/-- How often the page shows a task. -/
theorem count_dlq [BodyCodec Body] (now : ℚ) (r : Redis Body) (id : String) :
    ((dlq now r).map (·.jobID)).count id = r.dead.countP (deadOf id) := by
  rw [dlq_ids]
  generalize r.dead = bodies
  induction bodies with
  | nil => rfl
  | cons b rest ih =>
    rw [List.filterMap_cons, List.countP_cons]
    cases hb : apiUnmarshal b with
    | none => simp [deadOf, hb, ih]
    | some tm => simp [deadOf, hb, ih, List.count_cons]

/-- Buried is what uses up its budget. -/
theorem Accounted.buried_iff {e : Engine Body} (h : Accounted e.redis e.log)
    (hc : Counted e.log) {a : RouteArgs} (henq : .enqueued a ∈ e.log) :
    (jobOf e.log a.id).place = .buried ↔
      0 < a.maxRetries.toInt ∧ e.failures a.id = a.maxRetries.toInt := by
  have hok := (h.refines.holds a.id).ok
  have hb := hc.budget a henq
  have hf : ((jobOf e.log a.id).failures : ℤ) = e.failures a.id := by
    rw [hc.failures a.id]
    rfl
  rw [← hb, ← hf]
  constructor
  · exact hok.buried
  · rintro ⟨hpos, heq⟩
    by_contra hne
    have := hok.within hne hpos
    omega

/-- **The dead-letter page is exact.** In every reachable state of the core engine the page
shows every entry of the dead list, no task twice, only enqueued tasks with as many attempts
as their budget, and an enqueued task exactly if its failures have used up a positive
budget. -/
theorem dlq_page_exact {cs : List (Call Body)} {e : Engine Body}
    (hrun : EngineRun CoreCall .init cs e) (now : ℚ) :
    (dlq now e.redis).length = e.redis.dead.length ∧
    ((dlq now e.redis).map (·.jobID)).Nodup ∧
    (∀ item ∈ dlq now e.redis, ∃ a, .enqueued a ∈ e.log ∧ item.jobID = a.id ∧
      item.attempts = a.maxRetries.toInt) ∧
    ∀ a, .enqueued a ∈ e.log → (a.id ∈ (dlq now e.redis).map (·.jobID) ↔
      0 < a.maxRetries.toInt ∧ e.failures a.id = a.maxRetries.toInt) := by
  have hacc := core_accounted hrun
  have hcnt := (core_counted hrun).2
  have hcount : ∀ id, ((dlq now e.redis).map (·.jobID)).count id =
      if (jobOf e.log id).place = .buried then 1 else 0 :=
    fun id => (count_dlq now e.redis id).trans (hacc.refines.holds id).dead
  refine ⟨?_, ?_, ?_, ?_⟩
  · refine List.filterMap_length_eq_length.mpr fun b hb => ?_
    obtain ⟨id, hid⟩ := hacc.dead b hb
    simp only [deadOf, decide_eq_true_eq] at hid
    cases hdec : apiUnmarshal b with
    | none => simp [hdec] at hid
    | some tm => simp
  · rw [List.nodup_iff_count_le_one]
    intro id
    rw [hcount]
    split <;> simp
  · intro item hitem
    obtain ⟨b, hb, hmap⟩ := List.mem_filterMap.mp hitem
    obtain ⟨tm, htm, rfl⟩ := Option.map_eq_some_iff.mp hmap
    have hd : deadOf tm.id b = true := by simp [deadOf, htm]
    have hh := hacc.refines.holds tm.id
    have hbur : (jobOf e.log tm.id).place = .buried := by
      by_contra hne
      simp [hh.no_entry hne b hb] at hd
    obtain ⟨a, henq, hid⟩ := (hacc.refines.born tm.id).mp (by simp [hbur])
    refine ⟨a, henq, hid.symm, ?_⟩
    -- the entry is a document of the task, and its counter stopped at the budget
    obtain ⟨t, hdoc, -, -, hatt⟩ := hh.entry b hb hd
    have hapi := hdoc.api
    rw [htm] at hapi
    split at hapi
    · obtain rfl := Option.some.inj hapi
      show t.attempts = _
      rw [hatt, (hh.ok.buried hbur).2, ← hid, hcnt.budget a henq]
    · cases hapi
  · intro a henq
    rw [← hacc.buried_iff hcnt henq, ← List.count_pos_iff, hcount]
    split <;> simp_all

/-- The buried task is on the page, with two attempts. -/
theorem dlq_page_exact_after_burial :
    "job" ∈ (dlq 100 (Engine.init.execAll burialCalls).redis).map (·.jobID) ∧
      ((dlq 100 (Engine.init.execAll burialCalls).redis).map (·.jobID)).Nodup := by
  obtain ⟨-, hnodup, -, hiff⟩ := dlq_page_exact burialCalls_run 100
  have henq : .enqueued sampleArgs ∈ (Engine.init.execAll burialCalls).log := by decide +kernel
  exact ⟨(hiff sampleArgs henq).mpr (by decide +kernel), hnodup⟩

end ForgeQueue
