import ForgeQueue.Logic.Durable
import ForgeQueue.Logic.Pages
import ForgeQueue.Model.JsonBody

/-!
# One enqueue, one copy

The gateway journals a task before it writes it to Redis, so a sweep can find the row
first. The materialize script looks for the id in Redis, but the gateway's push does
not: a sweep in that gap and the push both insert the id. The copies of an id plus its
acknowledgements are an account that only insertions raise; it shows that the gap and a
sweep after the acknowledgement are all that can go wrong. A delayed enqueue is safe in
the gap too, as long as the swept entry is not promoted before the gateway's `ZADD`.
-/

namespace ForgeQueue

open Base

/-! ## Counting -/

/-- The event acknowledges the task. -/
def Event.isAck (id : String) : Event → Bool
  | .acked t _ => t == id
  | _ => false

/-- How often the task was acknowledged. -/
def ackCount (log : List Event) (id : String) : ℕ := log.countP (Event.isAck id)

theorem ackCount_cons (ev : Event) (log : List Event) (id : String) :
    ackCount (ev :: log) id = ackCount log id + (ev.isAck id).toNat := by
  unfold ackCount
  rw [List.countP_cons]
  cases ev.isAck id <;> rfl

/-- An event about another task, or about none, acknowledges nothing here. -/
theorem isAck_of_subject {ev : Event} {id : String} (h : ev.subject ≠ some id) :
    ev.isAck id = false := by
  cases ev with
  | acked t l => exact beq_eq_false_iff_ne.mpr fun ht => h (congrArg some ht)
  | _ => rfl

/-- The event adds a copy of the task that no other structure held before. -/
def Event.Inserts (id : String) : Event → Prop
  | .enqueued a => a.id = id
  | .materialized t | .requeued t => t = id
  | _ => False

section Copies

variable {Body : Type}

/-- Occurrences in the ready list, plus membership in inflight, plus membership in
scheduled. -/
def Redis.copies (r : Redis Body) (id : String) : ℕ :=
  r.immediate.count id + (r.inflight id).isSome.toNat + (r.scheduled id).isSome.toNat

theorem SameAt.copies {x : String} {r r' : Redis Body} (h : SameAt x r r') :
    r'.copies x = r.copies x := by
  unfold Redis.copies
  rw [h.immediate, h.inflight, h.scheduled]

/-- A push adds at most one copy. -/
theorem copies_routePush (r : Redis Body) (target : Option ℚ) (id : String) :
    (routePush target id r).copies id ≤ r.copies id + 1 := by
  cases target with
  | none =>
    simp only [Redis.copies, routePush, List.count_cons_self]
    omega
  | some score =>
    simp only [Redis.copies, routePush, put_self, Option.isSome_some, Bool.toNat_true]
    omega

/-- An id that is in none of the hot structures has no copy. -/
theorem copies_eq_zero {r : Redis Body} {id : String} (h : ¬ r.Live id) : r.copies id = 0 := by
  have hready : id ∉ r.immediate := fun hm => h (.inl hm)
  have hinfl : (r.inflight id).isSome = false := Bool.eq_false_iff.mpr fun hm => h (.inr (.inl hm))
  have hsched : (r.scheduled id).isSome = false :=
    Bool.eq_false_iff.mpr fun hm => h (.inr (.inr hm))
  rw [Redis.copies, List.count_eq_zero.mpr hready, hinfl, hsched]
  rfl

/-- The copies and acknowledgements of the task do not exceed `n`. -/
structure Account (n : ℕ) (id : String) (r : Redis Body) (log : List Event) : Prop where
  coupled : Coupled r
  total : r.copies id + ackCount log id ≤ n

/-- The task is at most scheduled: no worker has seen it. -/
structure Unseen (id : String) (r : Redis Body) (log : List Event) : Prop where
  coupled : Coupled r
  ready : id ∉ r.immediate
  inflight : r.inflight id = none
  acks : ackCount log id = 0

/-- An empty account is of a task no worker has seen. -/
theorem Account.unseen {id : String} {r : Redis Body} {log : List Event}
    (h : Account 0 id r log) : Unseen id r log := by
  have htotal := h.total
  unfold Redis.copies at htotal
  have hready : r.immediate.count id = 0 := by omega
  have hinfl : (r.inflight id).isSome.toNat = 0 := by omega
  refine ⟨h.coupled, List.count_eq_zero.mp hready, ?_, by omega⟩
  cases hi : r.inflight id with
  | none => rfl
  | some e => rw [hi] at hinfl; cases hinfl

/-- A task no worker has seen has its entry in scheduled at most. -/
theorem Unseen.account {id : String} {r : Redis Body} {log : List Event}
    (h : Unseen id r log) : Account 1 id r log := by
  refine ⟨h.coupled, ?_⟩
  have hone := Bool.toNat_le (r.scheduled id).isSome
  rw [Redis.copies, List.count_eq_zero.mpr h.ready, h.inflight, h.acks]
  simp only [Option.isSome_none, Bool.toNat_false]
  omega

/-- A `ZADD` of a task no worker has seen leaves it unseen. -/
theorem Unseen.zadd {id : String} {r : Redis Body} {log : List Event} (h : Unseen id r log)
    (score : ℚ) {ev : Event} (hev : ev.isAck id = false) :
    Unseen id (routePush (some score) id r) (ev :: log) := by
  refine ⟨h.coupled, h.ready, h.inflight, ?_⟩
  rw [ackCount_cons, hev, h.acks]
  rfl

/-- A push of a task with neither a copy nor an acknowledgement. -/
theorem Account.push {id : String} {r : Redis Body} {log : List Event} (h : Account 0 id r log)
    (target : Option ℚ) {ev : Event} (hev : ev.isAck id = false) :
    Account 1 id (routePush target id r) (ev :: log) := by
  refine ⟨?_, ?_⟩
  · cases target <;> exact h.coupled
  · have hpush := copies_routePush r target id
    have htotal := h.total
    rw [ackCount_cons, hev, Bool.toNat_false]
    omega

variable [BodyCodec Body]

/-- A failed attempt moves the leased copy, or drops it. -/
theorem copies_retry {r : Redis Body} {id : String} (hinfl : (r.inflight id).isSome)
    (now base cap : ℚ) :
    (retryOrBury now base cap id (r.release id)).1.copies id ≤ r.copies id := by
  have hf := retryOrBury_frame now base cap id (r.release id)
  unfold Redis.copies
  rw [hf.immediate, hf.inflight, release_immediate, release_inflight, del_self, hinfl]
  have hone := Bool.toNat_le ((retryOrBury now base cap id (r.release id)).1.scheduled id).isSome
  simp only [Option.isSome_none, Bool.toNat_false, Bool.toNat_true]
  omega

/-- **Step.** Every effect but an insertion keeps the account. -/
theorem Account.effect {n : ℕ} {id : String} {r r' : Redis Body} {log : List Event} {ev : Event}
    (h : Account n id r log) (hins : ¬ ev.Inserts id) (heff : Effect r ev r') :
    Account n id r' (ev :: log) := by
  refine ⟨h.coupled.effect heff, ?_⟩
  have htotal := h.total
  rw [ackCount_cons]
  by_cases hsub : ev.subject = some id
  swap
  · have hle : r'.copies id ≤ r.copies id := by
      by_cases hw : ev = .wiped
      · subst hw
        cases heff with
        | wiped => exact Nat.zero_le _
      · exact (heff.sameAt hsub hw).copies.le
    rw [isAck_of_subject hsub, Bool.toNat_false]
    omega
  cases heff with
  | bodySet a => exact htotal
  | paused on => exact htotal
  | wiped => cases hsub
  | enqueued a clock => exact absurd (Option.some.inj hsub) hins
  | materialized t target payload _ => exact absurd (Option.some.inj hsub) hins
  | requeued t => exact absurd (Option.some.inj hsub) hins
  | claimed t ready l e _ hr =>
    obtain rfl := Option.some.inj hsub
    simp only [Redis.copies, Event.isAck, Bool.toNat_false, Bool.toNat_true, put_self,
      Option.isSome_some] at htotal ⊢
    rw [hr, List.count_cons_self] at htotal
    omega
  | beat t l e hl =>
    obtain rfl := Option.some.inj hsub
    have hinfl := h.coupled.inflight hl
    simp only [Redis.copies, Event.isAck, Bool.toNat_false, Bool.toNat_true, put_self,
      Option.isSome_some, hinfl] at htotal ⊢
    omega
  | acked t l hl =>
    obtain rfl := Option.some.inj hsub
    have hinfl := h.coupled.inflight hl
    simp only [Redis.copies, Event.isAck, Bool.toNat_false, Bool.toNat_true,
      beq_self_eq_true, hinfl, release_immediate, release_inflight, release_scheduled, del_self,
      Option.isSome_none] at htotal ⊢
    omega
  | failed t l now base cap _ hl =>
    obtain rfl := Option.some.inj hsub
    have hle := copies_retry (h.coupled.inflight hl) now base cap
    simp only [Event.isAck, Bool.toNat_false]
    omega
  | reclaimed t e now base cap he _ =>
    obtain rfl := Option.some.inj hsub
    have hinfl : (r.inflight t).isSome = true := by rw [he]; rfl
    have hle := copies_retry hinfl now base cap
    simp only [Event.isAck, Bool.toNat_false]
    omega
  | promoted t score now hs _ =>
    obtain rfl := Option.some.inj hsub
    simp only [Redis.copies, Event.isAck, Bool.toNat_false, Bool.toNat_true,
      hs, Option.isSome_some, List.count_cons_self, del_self, Option.isSome_none] at htotal ⊢
    omega
  | deleted t =>
    obtain rfl := Option.some.inj hsub
    have hcount : (r.immediate.filter (· ≠ t)).count t = 0 := by
      rw [List.count_eq_zero]
      intro hmem
      simpa using (List.mem_filter.mp hmem).2
    simp only [Redis.copies, deleteTx, hcount, release_inflight, del_self, Option.isSome_none,
      Event.isAck, Bool.toNat_false]
    omega

/-- **Step.** A task no worker has seen stays unseen until it is promoted or inserted. -/
theorem Unseen.effect {id : String} {r r' : Redis Body} {log : List Event} {ev : Event}
    (h : Unseen id r log) (hins : ¬ ev.Inserts id) (hpro : ev ≠ .promoted id)
    (heff : Effect r ev r') : Unseen id r' (ev :: log) := by
  have hcoupled := h.coupled.effect heff
  by_cases hsub : ev.subject = some id
  swap
  · have hacks : ackCount (ev :: log) id = 0 := by
      rw [ackCount_cons, isAck_of_subject hsub, h.acks]
      rfl
    by_cases hw : ev = .wiped
    · subst hw
      cases heff with
      | wiped => exact ⟨hcoupled, List.not_mem_nil, rfl, hacks⟩
    · have hs := heff.sameAt hsub hw
      refine ⟨hcoupled, ?_, hs.inflight.trans h.inflight, hacks⟩
      rw [← List.count_eq_zero, hs.immediate, List.count_eq_zero]
      exact h.ready
  -- without a ready entry and without a lease nothing else can happen to the task
  have unleased : ∀ {l : String}, r.leases id ≠ some l := by
    intro l hl
    have hinfl := h.coupled.inflight hl
    rw [h.inflight] at hinfl
    cases hinfl
  cases heff with
  | bodySet a => exact ⟨hcoupled, h.ready, h.inflight, h.acks⟩
  | paused on => exact ⟨hcoupled, h.ready, h.inflight, h.acks⟩
  | wiped => cases hsub
  | enqueued a clock => exact absurd (Option.some.inj hsub) hins
  | materialized t target payload _ => exact absurd (Option.some.inj hsub) hins
  | requeued t => exact absurd (Option.some.inj hsub) hins
  | promoted t score now _ _ => exact absurd (congrArg Event.promoted (Option.some.inj hsub)) hpro
  | claimed t ready l e _ hr =>
    obtain rfl := Option.some.inj hsub
    refine absurd ?_ h.ready
    rw [hr]
    exact List.mem_cons_self
  | beat t l e hl =>
    obtain rfl := Option.some.inj hsub
    exact absurd hl unleased
  | acked t l hl =>
    obtain rfl := Option.some.inj hsub
    exact absurd hl unleased
  | failed t l now base cap _ hl =>
    obtain rfl := Option.some.inj hsub
    exact absurd hl unleased
  | reclaimed t e now base cap he _ =>
    obtain rfl := Option.some.inj hsub
    rw [h.inflight] at he
    cases he
  | deleted t =>
    obtain rfl := Option.some.inj hsub
    refine ⟨hcoupled, fun hm => h.ready (List.mem_filter.mp hm).1, ?_, h.acks⟩
    show del r.inflight t t = none
    exact del_self _ _

end Copies

variable {Body : Type} [BodyCodec Body]

/-- A command that inserts no copy keeps the account. -/
theorem Account.exec {n : ℕ} {id : String} {e : Engine Body} (h : Account n id e.redis e.log)
    (now : ℚ) {op : Op Body} (hins : ∀ ev ∈ e.redis.events now op, ¬ ev.Inserts id) :
    Account n id (e.exec ⟨now, op⟩).redis (e.exec ⟨now, op⟩).log :=
  (Redis.after_trace e.redis now op).invariant (P := fun _ ev => ¬ ev.Inserts id)
    (fun _ _ _ _ hok heff hi => hi.effect hok heff) e.log
    (.of_forall (fun ev hev _ => hins ev hev) _) h

/-- A command that neither inserts nor promotes the task leaves it unseen. -/
theorem Unseen.exec {id : String} {e : Engine Body} (h : Unseen id e.redis e.log)
    (now : ℚ) {op : Op Body}
    (hins : ∀ ev ∈ e.redis.events now op, ¬ ev.Inserts id ∧ ev ≠ .promoted id) :
    Unseen id (e.exec ⟨now, op⟩).redis (e.exec ⟨now, op⟩).log :=
  (Redis.after_trace e.redis now op).invariant
    (P := fun _ ev => ¬ ev.Inserts id ∧ ev ≠ .promoted id)
    (fun _ _ _ _ hok heff hi => hi.effect hok.1 hok.2 heff) e.log
    (.of_forall (fun ev hev _ => hins ev hev) _) h

/-! ## The gateway call -/

/-- The journal row is written, the queue entry is not. -/
def RouteCall.BeforePush (c : RouteCall) : Prop := c.pc = .journaled ∨ c.pc = .bodySet

/-- The push is a `ZADD`. -/
def RouteCall.Delayed (c : RouteCall) : Prop := 0 < c.args.delaySeconds

theorem RouteCall.Delayed.target {c : RouteCall} (h : c.Delayed) :
    routeTarget c.clock c.args = some (toDouble ((targetTime c.clock c.args).toInt : ℚ)) :=
  if_pos h

/-- The condition. A sweep comes to the task's row only while the task is unacknowledged,
and not between the journal write and the push of an immediate enqueue; and no promotion
moves the task before the push of a delayed one. -/
def GapSpared (id : String) (w : World Body) : Act → Prop
  | .materializeRow k _ => ∀ next row rest full,
      w.reconcilers k = .sweeping next (row :: rest) full → row.id = id →
        ackCount w.engine.log id = 0 ∧
          ∀ c, w.calls id = some c → c.BeforePush → c.Delayed
  | .promote t now => t = id → ∀ score, w.engine.redis.scheduled id = some score → score ≤ now →
      ∀ c, w.calls id = some c → ¬ c.BeforePush
  | _ => True

/-- Where the task can be, by its call: before the push of an immediate enqueue nowhere,
before the push of a delayed one in scheduled at most. No call counts as before the
push. -/
structure Phase (id : String) (r : Redis Body) (log : List Event) (c : Option RouteCall) :
    Prop where
  one : Account 1 id r log
  early : (∀ c', c = some c' → c'.BeforePush) → Unseen id r log
  fresh : (∀ c', c = some c' → c'.BeforePush ∧ ¬ c'.Delayed) → Account 0 id r log

omit [BodyCodec Body] in
/-- After the push one copy or one acknowledgement is all there is to say. -/
theorem Phase.settled {id : String} {r : Redis Body} {log : List Event} {c : RouteCall}
    (h : Account 1 id r log) (hc : ¬ c.BeforePush) : Phase id r log (some c) where
  one := h
  early hall := absurd (hall c rfl) hc
  fresh hall := absurd (hall c rfl).1 hc

omit [BodyCodec Body] in
/-- A call moves on, or starts. -/
theorem Phase.move {id : String} {r : Redis Body} {log : List Event} {c : Option RouteCall}
    {d : RouteCall} (h : Phase id r log c)
    (hd : d.BeforePush → ∀ c', c = some c' → c'.BeforePush ∧ c'.args = d.args) :
    Phase id r log (some d) where
  one := h.one
  early hall := h.early fun c' hc' => (hd (hall d rfl) c' hc').1
  fresh hall := by
    refine h.fresh fun c' hc' => ?_
    obtain ⟨hbefore, hnow⟩ := hall d rfl
    obtain ⟨hbefore', hargs⟩ := hd hbefore c' hc'
    refine ⟨hbefore', ?_⟩
    unfold RouteCall.Delayed
    rw [hargs]
    exact hnow

/-- A command that does not insert the task, nor promotes it early. -/
theorem Phase.exec {id : String} {e : Engine Body} {c : Option RouteCall}
    (h : Phase id e.redis e.log c) (now : ℚ) {op : Op Body}
    (hins : ∀ ev ∈ e.redis.events now op, ¬ ev.Inserts id)
    (hpro : (∀ c', c = some c' → c'.BeforePush) →
      ∀ ev ∈ e.redis.events now op, ev ≠ .promoted id) :
    Phase id (e.exec ⟨now, op⟩).redis (e.exec ⟨now, op⟩).log c where
  one := h.one.exec now hins
  early hall := (h.early hall).exec now fun ev hev => ⟨hins ev hev, hpro hall ev hev⟩
  fresh hall := (h.fresh hall).exec now hins

/-- The gateway's push. -/
theorem Phase.push {e : Engine Body} {c : RouteCall} (now : ℚ) (hc : c.BeforePush)
    (h : Phase c.args.id e.redis e.log (some c)) :
    Account 1 c.args.id (e.exec ⟨now, .routePush c.args c.clock⟩).redis
      (e.exec ⟨now, .routePush c.args c.clock⟩).log := by
  show Account 1 c.args.id (routePush (routeTarget c.clock c.args) c.args.id e.redis)
    (.enqueued c.args :: e.log)
  by_cases hdel : c.Delayed
  · -- `ZADD` finds the entry a sweep left, or none
    have hunseen : Unseen c.args.id e.redis e.log := h.early fun c' hc' => by
      obtain rfl := Option.some.inj hc'
      exact hc
    rw [hdel.target]
    exact (hunseen.zadd _ rfl).account
  · have hfresh : Account 0 c.args.id e.redis e.log := h.fresh fun c' hc' => by
      obtain rfl := Option.some.inj hc'
      exact ⟨hc, hdel⟩
    exact hfresh.push _ rfl

/-! ## Rows and their calls -/

/-- The row belongs to a call, and has a due time if the call has a delay. -/
def OfCall (calls : String → Option RouteCall) (row : Row Body) : Prop :=
  ∃ c, calls row.id = some c ∧ (c.Delayed → row.scheduleAt.isSome)

/-- The account of one task in the world. -/
structure Single (id : String) (w : World Body) : Prop where
  phase : Phase id w.engine.redis w.engine.log (w.calls id)
  args : ∀ x c, w.calls x = some c → c.args.id = x
  rows : ∀ row ∈ w.journal, OfCall w.calls row
  pages : ∀ k, ∀ row ∈ (w.reconcilers k).page,
    OfCall w.calls row ∧ row.state.terminal = false

omit [BodyCodec Body] in
theorem Single.init (id : String) : Single id (World.init : World Body) where
  phase := ⟨⟨.empty, Nat.zero_le 1⟩, fun _ => ⟨.empty, List.not_mem_nil, rfl, rfl⟩,
    fun _ => ⟨.empty, le_refl 0⟩⟩
  args _ _ h := by cases h
  rows _ h := by cases h
  pages _ _ h := by cases h

/-- A call keeps its id. -/
theorem Single.args_step {id : String} {w w' : World Body} {act : Act} (h : Single id w)
    (hst : w.step act = some w') : ∀ x c, w'.calls x = some c → c.args.id = x := by
  have moved : ∀ {c : RouteCall} {pc : RoutePc}, w'.calls = put w.calls c.args.id { c with pc } →
      ∀ x c', w'.calls x = some c' → c'.args.id = x := by
    intro c pc heq x c' hc'
    rw [heq] at hc'
    rcases put_eq_some.mp hc' with ⟨rfl, rfl⟩ | ⟨-, hc'⟩
    · rfl
    · exact h.args x c' hc'
  cases World.moves hst with
  | @routeStart a clock _ _ => exact moved (c := ⟨a, clock, .journaled⟩) rfl
  | routeSet _ _ => exact moved rfl
  | routePush _ _ => exact moved rfl
  | routeDone _ _ => exact moved rfl
  | routeCrash _ _ => exact moved rfl
  | _ => exact h.args

/-- A call stays, with its arguments. -/
theorem Single.calls_step {id : String} {w w' : World Body} {act : Act} (h : Single id w)
    (hst : w.step act = some w') {x : String} {c : RouteCall} (hc : w.calls x = some c) :
    ∃ c', w'.calls x = some c' ∧ c'.args = c.args := by
  have moved : ∀ {y : String} {d : RouteCall} {pc : RoutePc}, w.calls y = some d →
      w'.calls = put w.calls d.args.id { d with pc } →
      ∃ c', w'.calls x = some c' ∧ c'.args = c.args := by
    intro y d pc hd heq
    rw [heq, h.args y d hd]
    by_cases hx : x = y
    · subst hx
      obtain rfl := Option.some.inj (hc.symm.trans hd)
      exact ⟨_, put_self _ _ _, rfl⟩
    · exact ⟨c, (put_of_ne _ _ hx).trans hc, rfl⟩
  cases World.moves hst with
  | @routeStart a clock _ hnew =>
    have hx : x ≠ a.id := by
      rintro rfl
      rw [hc] at hnew
      cases hnew
    exact ⟨c, (put_of_ne _ _ hx).trans hc, rfl⟩
  | routeSet hd _ => exact moved hd rfl
  | routePush hd _ => exact moved hd rfl
  | routeDone hd _ => exact moved hd rfl
  | routeCrash hd _ => exact moved hd rfl
  | _ => exact ⟨c, hc, rfl⟩

/-- A row that belongs to a call still does after a step. -/
theorem Single.ofCall_step {id : String} {w w' : World Body} {act : Act} (h : Single id w)
    (hst : w.step act = some w') {row : Row Body} (hrow : OfCall w.calls row) :
    OfCall w'.calls row := by
  obtain ⟨c, hc, hdue⟩ := hrow
  obtain ⟨c', hc', hargs⟩ := h.calls_step hst hc
  refine ⟨c', hc', ?_⟩
  unfold RouteCall.Delayed
  rw [hargs]
  exact hdue

omit [BodyCodec Body] in
/-- An `UPDATE` leaves every row with its call. -/
theorem ofCall_update {calls : String → Option RouteCall} {rows : List (Row Body)}
    (h : ∀ row ∈ rows, OfCall calls row) {f : Row Body → Row Body} (hf : Keeps f) (id : String) :
    ∀ row ∈ journalUpdate id f rows, OfCall calls row := by
  intro row hrow
  rcases mem_journalUpdate hrow with hold | ⟨old, hold, -, rfl⟩
  · exact h row hold
  · obtain ⟨c, hc, hdue⟩ := h old hold
    exact ⟨c, by rw [hf.id]; exact hc, fun hdel => hf.due old (hdue hdel)⟩

/-- The rows of the journal belong to calls. -/
theorem Single.rows_step {id : String} {w w' : World Body} {act : Act} (h : Single id w)
    (hst : w.step act = some w') : ∀ row ∈ w'.journal, OfCall w'.calls row := by
  suffices hmem : ∀ row ∈ w'.journal, OfCall w.calls row ∨ OfCall w'.calls row from
    fun row hrow => (hmem row hrow).elim (h.ofCall_step hst) fun hnew => hnew
  have updated : ∀ {x : String} {f : Row Body → Row Body}, Keeps f →
      w'.journal = journalUpdate x f w.journal →
      ∀ row ∈ w'.journal, OfCall w.calls row ∨ OfCall w'.calls row := by
    intro x f hf heq row hrow
    rw [heq] at hrow
    exact .inl (ofCall_update h.rows hf x row hrow)
  cases World.moves hst with
  | @routeStart a clock _ _ =>
    intro row hrow
    rcases mem_journalEnqueue hrow with hold | ⟨hid, hdue, -⟩
    · exact .inl (h.rows row hold)
    · refine .inr ⟨⟨a, clock, .journaled⟩, ?_, ?_⟩
      · rw [hid]
        exact put_self _ _ _
      · intro hdel
        rw [hdue]
        exact Option.isSome_of_eq_some (if_pos hdel)
  | routeDone _ _ => exact updated keeps_materialized rfl
  | process _ _ _ => exact updated (keeps_setState _ _ _) rfl
  | @writeReport _ _ dead _ _ _ _ _ =>
    cases dead with
    | true => exact updated (keeps_setState _ _ _) rfl
    | false => exact updated (keeps_setState _ _ _) rfl
  | succeeded _ => exact updated (keeps_setState _ _ _) rfl
  | clearRow _ => exact updated keeps_materialized rfl
  | _ => exact fun row hrow => .inl (h.rows row hrow)

/-- The rows of the pages belong to calls, and were not terminal when they were read. -/
theorem Single.pages_step {id : String} {w w' : World Body} {act : Act} (h : Single id w)
    (hst : w.step act = some w') : ∀ k, ∀ row ∈ (w'.reconcilers k).page,
      OfCall w'.calls row ∧ row.state.terminal = false := by
  intro k row hrow
  rcases page_step hst hrow with hold | ⟨cursor, -, -, hpage⟩
  · obtain ⟨hcall, hlive⟩ := h.pages k row hold
    exact ⟨h.ofCall_step hst hcall, hlive⟩
  · obtain ⟨hmem, hlive, -⟩ := mem_active hpage
    exact ⟨h.ofCall_step hst (h.rows row hmem), hlive⟩

omit [BodyCodec Body] in
/-- A row with a due time is materialized into scheduled. -/
theorem materializeScore_due {row : Row Body} (hlive : row.state.terminal = false)
    (hdue : row.scheduleAt.isSome) (clock : ℚ) : ∃ score, materializeScore clock row = some score := by
  obtain ⟨t, ht⟩ := Option.isSome_iff_exists.mp hdue
  unfold materializeScore
  rw [ht]
  cases hs : row.state with
  | enqueued => exact ⟨_, rfl⟩
  | processing => exact ⟨_, rfl⟩
  | retrying => exact ⟨_, rfl⟩
  | succeeded => rw [hs] at hlive; cases hlive
  | dead => rw [hs] at hlive; cases hlive

/-! ## Steps -/

/-- A sweep of the task's row. -/
theorem Single.materialize {id : String} {w : World Body} (h : Single id w) {k : ℕ} {next : Key}
    {row : Row Body} {rest : List (Row Body)} {full : Bool} (clock : ℚ)
    (hk : w.reconcilers k = .sweeping next (row :: rest) full) (hid : row.id = id)
    (hok : GapSpared id w (.materializeRow k clock)) :
    Phase id (w.exec 0 (.materialize row.id (materializeScore clock row) row.payload)).engine.redis
      (w.exec 0 (.materialize row.id (materializeScore clock row) row.payload)).engine.log
      (w.calls id) := by
  subst hid
  obtain ⟨hacks, hgap⟩ := hok next row rest full hk rfl
  have hpage : row ∈ (w.reconcilers k).page := by
    rw [hk]
    exact List.mem_cons_self
  obtain ⟨⟨c, hc, hdue⟩, hlive⟩ := h.pages k row hpage
  rcases exec_materialize w.engine 0 row.id (materializeScore clock row) row.payload with
    ⟨-, hsame⟩ | ⟨hnot, hnew⟩
  · show Phase row.id (w.engine.exec _).redis (w.engine.exec _).log _
    rw [hsame]
    exact h.phase
  show Phase row.id (w.engine.exec _).redis (w.engine.exec _).log _
  rw [hnew]
  have hnone : Account 0 row.id
      { w.engine.redis with task := put w.engine.redis.task row.id row.payload }
      w.engine.log := by
    refine ⟨h.phase.one.coupled, ?_⟩
    show w.engine.redis.copies row.id + _ ≤ 0
    rw [copies_eq_zero hnot, hacks]
  refine ⟨hnone.push _ rfl, ?_, ?_⟩
  · -- before the push only a delayed task is swept, and into scheduled
    intro hall
    obtain ⟨score, hscore⟩ := materializeScore_due hlive (hdue (hgap c hc (hall c hc))) clock
    rw [hscore]
    exact hnone.unseen.zadd score rfl
  · intro hall
    obtain ⟨hbefore, hnow⟩ := hall c hc
    exact absurd (hgap c hc hbefore) hnow

/-- A promotion reports itself only if the task was due. -/
theorem promoted_of_mem {r : Redis Body} {now : ℚ} {t id : String}
    (h : .promoted id ∈ r.events now (.promoteTask t)) :
    t = id ∧ ∃ score, r.scheduled id = some score ∧ score ≤ now := by
  obtain rfl : id = t := by
    have hev : Event.promoted id = .promoted t := Redis.emits_of_mem h
    injection hev
  refine ⟨rfl, ?_⟩
  cases hs : r.scheduled id with
  | none =>
    simp only [Redis.events, promoteTask, hs] at h
    cases h
  | some score =>
    refine ⟨score, rfl, ?_⟩
    by_contra hlt
    simp only [Redis.events, promoteTask, hs, if_pos (not_le.mp hlt)] at h
    cases h

/-- A promotion, of the task or of another one. -/
theorem Single.promote {id t : String} {now : ℚ} {w : World Body} (h : Single id w)
    (hok : GapSpared id w (.promote t now)) :
    Phase id (w.engine.exec ⟨now, .promoteTask t⟩).redis
      (w.engine.exec ⟨now, .promoteTask t⟩).log (w.calls id) := by
  refine h.phase.exec now ?_ ?_
  · intro ev hev
    rw [show ev = .promoted t from Redis.emits_of_mem hev]
    exact nofun
  · rintro hall ev hev rfl
    obtain ⟨rfl, score, hs, hle⟩ := promoted_of_mem hev
    cases hc : w.calls t with
    | none =>
      -- nothing was ever scheduled without a call
      have hfresh := h.phase.fresh fun c' hc' => by rw [hc] at hc'; cases hc'
      have htotal := hfresh.total
      rw [Redis.copies, hs] at htotal
      simp only [Option.isSome_some, Bool.toNat_true] at htotal
      omega
    | some c => exact hok rfl score hs hle c hc (hall c hc)

/-- The place of the task across a step of the world. -/
theorem Single.phase_step {id : String} {w w' : World Body} {act : Act} (h : Single id w)
    (hok : GapSpared id w act) (hst : w.step act = some w') :
    Phase id w'.engine.redis w'.engine.log (w'.calls id) := by
  -- commands that have nothing to do with insertions
  have quiet : ∀ (now : ℚ) {op : Op Body},
      (∀ ev, op.emits ev → ¬ ev.Inserts id ∧ ev ≠ .promoted id) →
      Phase id (w.engine.exec ⟨now, op⟩).redis (w.engine.exec ⟨now, op⟩).log (w.calls id) := by
    intro now op hop
    exact h.phase.exec now (fun ev hev => (hop ev (Redis.emits_of_mem hev)).1)
      fun _ ev hev => (hop ev (Redis.emits_of_mem hev)).2
  -- the move of a call matters to its own task only
  have moved : ∀ {x : String} {c : RouteCall} {pc : RoutePc} {r : Redis Body} {log : List Event},
      w.calls x = some c → (x ≠ id → Phase id r log (w.calls id)) →
      (x = id → Phase id r log (some { c with pc })) →
      Phase id r log (put w.calls c.args.id { c with pc } id) := by
    intro x c pc r log hc hother hown
    rw [h.args x c hc]
    by_cases hx : x = id
    · rw [hx, put_self]; exact hown hx
    · rw [put_of_ne _ _ (Ne.symm hx)]; exact hother hx
  cases World.moves hst with
  | @routeStart a clock _ hnew =>
    show Phase id w.engine.redis w.engine.log (put w.calls a.id _ id)
    by_cases hx : id = a.id
    · rw [hx, put_self, ← hx]
      refine h.phase.move fun _ c' hc' => ?_
      rw [hx, hnew] at hc'
      cases hc'
    · rw [put_of_ne _ _ hx]
      exact h.phase
  | @routeSet x c hc hpc =>
    have hphase : Phase id (w.engine.exec ⟨0, .routeBody c.args⟩).redis
        (w.engine.exec ⟨0, .routeBody c.args⟩).log (w.calls id) :=
      quiet 0 (by rintro _ rfl; exact ⟨nofun, nofun⟩)
    refine moved hc (fun _ => hphase) ?_
    rintro rfl
    refine hphase.move fun _ c' hc' => ?_
    obtain rfl := Option.some.inj (hc.symm.trans hc')
    exact ⟨.inl hpc, rfl⟩
  | @routePush x c hc hpc =>
    refine moved hc ?_ ?_
    · intro hx
      refine quiet 0 ?_
      rintro _ rfl
      exact ⟨fun hid => hx ((h.args x c hc).symm.trans hid), nofun⟩
    · rintro rfl
      have hphase := h.phase
      rw [hc, ← h.args x c hc] at hphase
      refine .settled ?_ (by rintro (hp | hp) <;> cases hp)
      rw [← h.args x c hc]
      exact hphase.push 0 (.inr hpc)
  | routeDone hc _ =>
    refine moved hc (fun _ => h.phase) fun _ => ?_
    exact .settled h.phase.one (by rintro (hp | hp) <;> cases hp)
  | routeCrash hc _ =>
    refine moved hc (fun _ => h.phase) fun _ => ?_
    exact .settled h.phase.one (by rintro (hp | hp) <;> cases hp)
  | claim _ => exact quiet 0 (by rintro _ ⟨_, _, -, rfl⟩; exact ⟨nofun, nofun⟩)
  | handlerFail _ =>
    exact quiet _ (by rintro _ (⟨_, rfl⟩ | ⟨_, _, rfl⟩) <;> exact ⟨nofun, nofun⟩)
  | recover _ =>
    exact quiet _ (by rintro _ (⟨_, rfl⟩ | ⟨_, _, rfl⟩) <;> exact ⟨nofun, nofun⟩)
  | ack _ => exact quiet 0 (by rintro _ ⟨_, _, rfl⟩; exact ⟨nofun, nofun⟩)
  | heartbeat => exact quiet _ (by rintro _ ⟨_, rfl⟩; exact ⟨nofun, nofun⟩)
  | wipe => exact quiet 0 (by rintro _ rfl; exact ⟨nofun, nofun⟩)
  | promote => exact h.promote hok
  | @materializeRow k next row rest full clock hk =>
    by_cases hid : row.id = id
    · exact h.materialize clock hk hid hok
    · refine quiet 0 ?_
      rintro _ rfl
      exact ⟨hid, nofun⟩
  | _ => exact h.phase

/-- **Step.** -/
theorem Single.step {id : String} {w w' : World Body} {act : Act} (h : Single id w)
    (hok : GapSpared id w act) (hst : w.step act = some w') : Single id w' :=
  ⟨h.phase_step hok hst, h.args_step hst, h.rows_step hst, h.pages_step hst⟩

/-- **At most one copy, at most one acknowledgement.** In every run in which no sweep
comes to the task's row before the push of an immediate enqueue or after the
acknowledgement, and no promotion moves the task before the push of a delayed one, the
task has at most one copy in the three hot structures and is acknowledged at most once.
Failures, expired leases, crashes and wipes do not matter. -/
theorem single_copy_when_gap_spared {id : String} {acts : List Act} {w : World Body}
    (hrun : WorldRun (GapSpared id) World.init acts w) :
    w.engine.redis.copies id ≤ 1 ∧ ackCount w.engine.log id ≤ 1 := by
  have hs : Single id w :=
    hrun.invariant (Single id) (fun _ _ _ hok hst hi => hi.step hok hst) (.init id)
  have htotal := hs.phase.one.total
  omega

/-- A delayed enqueue that is swept before its `ZADD` and once more after it. -/
def sweptBeforeZadd : List Act :=
  [.routeStart { sampleArgs with delaySeconds := 5 } 100 100, .readPage 0, .materializeRow 0 101,
    .clearRow 0, .finishPage 0, .routeSet "job", .routePush "job", .routeDone "job",
    .readPage 0, .materializeRow 0 102, .clearRow 0, .finishPage 0]

/-- The sweep and the gateway write the same entry of the scheduled set. -/
theorem single_copy_when_gap_spared_delayed :
    ∃ w : World JsonBody, WorldRun (GapSpared "job") World.init sweptBeforeZadd w ∧
      w.engine.log = [.enqueued { sampleArgs with delaySeconds := 5 },
        .bodySet { sampleArgs with delaySeconds := 5 }, .materialized "job"] ∧
      w.engine.redis.copies "job" ≤ 1 ∧ ackCount w.engine.log "job" ≤ 1 := by
  have hrun : ∃ w : World JsonBody, WorldRun (GapSpared "job") World.init sweptBeforeZadd w ∧
      w.engine.log = [.enqueued { sampleArgs with delaySeconds := 5 },
        .bodySet { sampleArgs with delaySeconds := 5 }, .materialized "job"] := by
    refine ⟨_, .cons trivial rfl (.cons trivial rfl (.cons ?_ rfl (.cons trivial rfl
      (.cons trivial rfl (.cons trivial rfl (.cons trivial rfl (.cons trivial rfl
      (.cons trivial rfl (.cons ?_ rfl (.cons trivial rfl (.cons trivial rfl
      .nil))))))))))), by decide +kernel⟩
    · -- the call has a delay
      intro _ _ _ _ _ _
      refine ⟨by decide +kernel, fun c hc _ => ?_⟩
      obtain rfl := Option.some.inj hc
      unfold RouteCall.Delayed
      decide
    · -- the call has returned
      intro _ _ _ _ _ _
      refine ⟨by decide +kernel, fun c hc hp => ?_⟩
      obtain rfl := Option.some.inj hc
      rcases hp with hp | hp <;> cases hp
  obtain ⟨w, hrun, hlog⟩ := hrun
  exact ⟨w, hrun, hlog, single_copy_when_gap_spared hrun⟩

/-! ## A sweep in the gap -/

/-- No error, no crash, no wipe, and no recovery finds an expired lease. -/
def SmoothOk (w : World Body) : Act → Prop
  | .handlerFail .. | .routeCrash _ | .agentCrash _ | .reconcilerCrash _ | .wipe => False
  | .recover _ taskID now _ _ => requeueGuard now taskID "" w.engine.redis ≠ none
  | _ => True

/-- The row is swept between the journal write and the push. -/
def sweptBeforePush : List Act :=
  [.routeStart sampleArgs 100 100, .readPage 0, .materializeRow 0 100, .clearRow 0,
    .routeSet "job", .routePush "job"]

/-- The swept copy is claimed and acknowledged before the push. -/
def ackedBeforePush : List Act :=
  [.routeStart sampleArgs 100 100, .readPage 0, .materializeRow 0 100, .clearRow 0,
    .claim 1 ["L1"] 130, .process 1, .handlerOk 1, .ack 1, .succeeded 1,
    .routeSet "job", .routePush "job",
    .claim 2 ["L2"] 131, .process 2, .handlerOk 2, .ack 2]

/-- **The race.** With no error, no crash and no expired lease, the ready list can hold
the id twice, and the task can be acknowledged twice. -/
theorem sweep_before_push_doubles :
    (∃ w : World JsonBody, WorldRun SmoothOk World.init sweptBeforePush w ∧
      w.engine.redis.immediate = ["job", "job"] ∧ ¬ w.engine.redis.copies "job" ≤ 1) ∧
    (∃ w : World JsonBody, WorldRun SmoothOk World.init ackedBeforePush w ∧
      ¬ ackCount w.engine.log "job" ≤ 1) := by
  refine ⟨⟨_, .cons trivial rfl (.cons trivial rfl (.cons trivial rfl (.cons trivial rfl
    (.cons trivial rfl (.cons trivial rfl .nil))))), by decide +kernel, by decide +kernel⟩, ?_⟩
  exact ⟨_, .cons trivial rfl (.cons trivial rfl (.cons trivial rfl (.cons trivial rfl
    (.cons trivial rfl (.cons trivial rfl (.cons trivial rfl (.cons trivial rfl
    (.cons trivial rfl (.cons trivial rfl (.cons trivial rfl (.cons trivial rfl
    (.cons trivial rfl (.cons trivial rfl (.cons trivial rfl .nil)))))))))))))),
    by decide +kernel⟩

end ForgeQueue
