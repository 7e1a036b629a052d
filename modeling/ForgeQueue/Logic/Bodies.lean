import ForgeQueue.Logic.Counts
import ForgeQueue.Logic.Durable
import ForgeQueue.Logic.Pages

/-!
# Rows, bodies and the calls they stem from

The payload of a row is what the gateway call of its id serialized, and no statement
changes it. The body in Redis is that record too, except for the counter: the retry
script rewrites it, and the gateway and the sweeps write it whole. So the counter in
Redis is the number of failures since the body was last written whole. This holds in every
state of every run, with sweeps, crashes and wipes.
-/

namespace ForgeQueue

open Base

/-- The body of `id` is written whole, with the counter at zero. -/
def Event.writesBody (id : String) : Event → Bool
  | .bodySet a => a.id == id
  | .materialized t => t == id
  | _ => false

/-- The failures of `id` since its body was last written whole. -/
def sinceWrite (id : String) : List Event → ℕ
  | [] => 0
  | ev :: log =>
    if ev.writesBody id then 0
    else if ev.failureOf id then sinceWrite id log + 1
    else sinceWrite id log

theorem sinceWrite_of_ne {id : String} {ev : Event} (h : ev.subject ≠ some id)
    (log : List Event) : sinceWrite id (ev :: log) = sinceWrite id log := by
  have hw : ev.writesBody id = false := by
    cases ev <;> simp_all [Event.subject, Event.writesBody]
  have hf : ev.failureOf id = false := by
    cases ev <;> simp_all [Event.subject, Event.failureOf]
  simp [sinceWrite, hw, hf]

section Bodies

variable {Body : Type} [TaskCodec Body]

/-- Every body is the record of its call, with the failures since it was written. -/
def BodiesMatch (args : String → Option RouteArgs) (r : Redis Body) (log : List Event) : Prop :=
  ∀ id b, r.task id = some b → ∃ a, args id = some a ∧
    IsDoc b { routeData a with attempts := (sinceWrite id log : ℤ) }

theorem BodiesMatch.empty (args : String → Option RouteArgs) (log : List Event) :
    BodiesMatch args (Redis.empty : Redis Body) log := by
  intro id b hb
  cases hb

/-- An event that leaves the bodies alone, or removes some. -/
theorem BodiesMatch.of_task {args : String → Option RouteArgs} {r r' : Redis Body}
    {log : List Event} {ev : Event} (h : BodiesMatch args r log)
    (htask : ∀ id b, r'.task id = some b → r.task id = some b)
    (hsince : ∀ id, sinceWrite id (ev :: log) = sinceWrite id log) :
    BodiesMatch args r' (ev :: log) := by
  intro id b hb
  rw [hsince id]
  exact h id b (htask id b hb)

/-- A failed attempt bumps the counter of a body that is there. -/
theorem BodiesMatch.retry {args : String → Option RouteArgs} {r : Redis Body} {log : List Event}
    {ev : Event} {t : String} {now base cap : ℚ} (h : BodiesMatch args r log)
    (heff : Effect r ev (retryOrBury now base cap t (r.release t)).1)
    (hsub : ev.subject = some t) (hwrite : ev.writesBody t = false) (hfail : ev.failureOf t = true) :
    BodiesMatch args (retryOrBury now base cap t (r.release t)).1 (ev :: log) := by
  intro id b hb
  by_cases hid : id = t
  · subst hid
    have hsince : sinceWrite id (ev :: log) = sinceWrite id log + 1 := by
      simp [sinceWrite, hwrite, hfail]
    cases hold : r.task id with
    | none =>
      have hnone : (retryOrBury now base cap id (r.release id)).1.task id = none := by
        simp [retryOrBury, hold]
      rw [hnone] at hb
      cases hb
    | some b₀ =>
      obtain ⟨a, ha, hdoc⟩ := h id b₀ hold
      obtain ⟨b', hdoc', heq⟩ := retryOrBury_doc now base cap id (r.release id) hold hdoc
      have hnew : (retryOrBury now base cap id (r.release id)).1.task id = some b' := by
        rw [heq]
        split <;> exact put_self _ _ _
      obtain rfl : b' = b := Option.some.inj (hnew.symm.trans hb)
      refine ⟨a, ha, ?_⟩
      rw [hsince]
      exact_mod_cast hdoc'
  · have hne : ev.subject ≠ some id := by
      rw [hsub]
      exact fun he => hid (Option.some.inj he).symm
    have hw : ev ≠ .wiped := by
      rintro rfl
      cases hsub
    rw [(heff.sameAt hne hw).task] at hb
    rw [sinceWrite_of_ne hne]
    exact h id b hb

/-- **Effects** that write no body whole. -/
theorem BodiesMatch.effect {args : String → Option RouteArgs} {r r' : Redis Body}
    {log : List Event} {ev : Event} (hq : ∀ id, ev.writesBody id = false)
    (heff : Effect r ev r') (h : BodiesMatch args r log) : BodiesMatch args r' (ev :: log) := by
  cases heff with
  | bodySet a =>
    have hw := hq a.id
    simp [Event.writesBody] at hw
  | materialized t target payload _ =>
    have hw := hq t
    simp [Event.writesBody] at hw
  | enqueued a clock =>
    refine h.of_task (fun id b hb => ?_) (fun _ => rfl)
    rw [← hb, routePush_task]
  | paused on => exact h.of_task (fun _ _ hb => hb) (fun _ => rfl)
  | claimed t ready l e _ _ => exact h.of_task (fun _ _ hb => hb) (fun _ => rfl)
  | beat t l e _ => exact h.of_task (fun _ _ hb => hb) (fun _ => rfl)
  | promoted t score now _ _ => exact h.of_task (fun _ _ hb => hb) (fun _ => rfl)
  | requeued t => exact h.of_task (fun _ _ hb => hb) (fun _ => rfl)
  | acked t l _ => exact h.of_task (fun _ _ hb => (del_eq_some.mp hb).2) (fun _ => rfl)
  | deleted t => exact h.of_task (fun _ _ hb => (del_eq_some.mp hb).2) (fun _ => rfl)
  | wiped => exact .empty _ _
  | failed t l now base cap hne hl =>
    exact h.retry (.failed r t l now base cap hne hl) rfl rfl (by simp [Event.failureOf])
  | reclaimed t e now base cap he hle =>
    exact h.retry (.reclaimed r t e now base cap he hle) rfl rfl (by simp [Event.failureOf])

end Bodies

/-! ## The world -/

section World

variable {Body : Type}

/-- The arguments of the gateway call of an id. -/
def World.argsOf (w : World Body) (id : String) : Option RouteArgs :=
  (w.calls id).map RouteCall.args

/-- The payload of the row is what its call serialized. -/
def Row.FromCall [BodyCodec Body] (args : String → Option RouteArgs) (row : Row Body) : Prop :=
  ∃ a, args row.id = some a ∧ row.payload = marshal (routeData a)

variable [TaskCodec Body]

/-- Rows, pages and bodies stem from the calls. -/
structure Recorded (w : World Body) : Prop where
  ids : ∀ id a, w.argsOf id = some a → a.id = id
  rows : ∀ row ∈ w.journal, row.FromCall w.argsOf
  pages : ∀ k, ∀ row ∈ (w.reconcilers k).page, row.FromCall w.argsOf
  bodies : BodiesMatch w.argsOf w.engine.redis w.engine.log

theorem Recorded.init : Recorded (World.init : World Body) where
  ids _ _ h := by cases h
  rows _ h := by cases h
  pages _ _ h := by cases h
  bodies := .empty _ _

omit [TaskCodec Body] in
/-- A call that moves on keeps its arguments. -/
theorem World.argsOf_setCall {w : World Body} {id : String} {c : RouteCall}
    (hc : w.calls id = some c) (hid : c.args.id = id) (pc : RoutePc) :
    (w.setCall c pc).argsOf = w.argsOf := by
  funext x
  show (put w.calls c.args.id { c with pc := pc } x).map RouteCall.args =
    (w.calls x).map RouteCall.args
  by_cases hx : x = id
  · rw [hid, hx, put_self, hc]
    rfl
  · rw [hid, put_of_ne _ _ hx]

omit [TaskCodec Body] in
/-- What the calls of a world are after a step: one of them is new, or none. -/
theorem World.argsOf_step [BodyCodec Body] {w w' : World Body} {act : Act}
    (hids : ∀ id a, w.argsOf id = some a → a.id = id) (hst : w.step act = some w') :
    w'.argsOf = w.argsOf ∨
      ∃ a, w.argsOf a.id = none ∧ w'.argsOf = put w.argsOf a.id a := by
  have known : ∀ {id c}, w.calls id = some c → c.args.id = id := by
    intro id c hc
    exact hids id c.args (by rw [World.argsOf, hc]; rfl)
  cases World.moves hst with
  | @routeStart a clock pgNow hnew =>
    refine .inr ⟨a, by rw [World.argsOf, hnew]; rfl, ?_⟩
    funext x
    show (put w.calls a.id ⟨a, clock, .journaled⟩ x).map RouteCall.args = put w.argsOf a.id a x
    by_cases hx : x = a.id
    · rw [hx, put_self, put_self]
      rfl
    · rw [put_of_ne _ _ hx, put_of_ne _ _ hx]
      rfl
  | routeSet hc hpc => exact .inl (World.argsOf_setCall hc (known hc) _)
  | routePush hc hpc => exact .inl (World.argsOf_setCall hc (known hc) _)
  | routeDone hc hpc => exact .inl (World.argsOf_setCall hc (known hc) _)
  | routeCrash hc hpc => exact .inl (World.argsOf_setCall hc (known hc) _)
  | _ => exact .inl rfl

/-- The arguments of a call are never lost. -/
theorem World.argsOf_mono {w w' : World Body} {act : Act}
    (hids : ∀ id a, w.argsOf id = some a → a.id = id) (hst : w.step act = some w') {id : String}
    {a : RouteArgs} (h : w.argsOf id = some a) : w'.argsOf id = some a := by
  rcases World.argsOf_step hids hst with heq | ⟨a', hnew, heq⟩
  · rw [heq]
    exact h
  · rw [heq, put_of_ne]
    · exact h
    · rintro rfl
      rw [hnew] at h
      cases h

omit [TaskCodec Body] in
/-- A row of the journal has the payload of an older row, or the gateway just wrote it. -/
theorem journal_step [BodyCodec Body] {w w' : World Body} {act : Act}
    (hst : w.step act = some w') {row : Row Body} (hrow : row ∈ w'.journal) :
    (∃ old ∈ w.journal, row.id = old.id ∧ row.payload = old.payload) ∨
      ∃ a, w'.argsOf a.id = some a ∧ row.id = a.id ∧ row.payload = marshal (routeData a) := by
  have updated : ∀ {id : String} {f : Row Body → Row Body}, Keeps f →
      w'.journal = journalUpdate id f w.journal →
      ∃ old ∈ w.journal, row.id = old.id ∧ row.payload = old.payload := by
    intro id f hf heq
    rw [heq] at hrow
    rcases mem_journalUpdate hrow with hold | ⟨old, hold, -, rfl⟩
    · exact ⟨row, hold, rfl, rfl⟩
    · exact ⟨old, hold, hf.id old, hf.payload old⟩
  cases World.moves hst with
  | @routeStart a clock pgNow hnew =>
    rcases mem_journalEnqueue hrow with hold | ⟨hid, -, hpay⟩
    · exact .inl ⟨row, hold, rfl, rfl⟩
    · refine .inr ⟨a, ?_, hid, hpay⟩
      show (put w.calls a.id ⟨a, clock, .journaled⟩ a.id).map RouteCall.args = some a
      rw [put_self]
      rfl
  | routeDone hc hpc => exact .inl (updated keeps_materialized rfl)
  | process hi hb ht => exact .inl (updated (keeps_setState _ _ _) rfl)
  | @writeReport i t dead attempts todo acks due hi =>
    cases dead with
    | true => exact .inl (updated (keeps_setState _ _ _) rfl)
    | false => exact .inl (updated (keeps_setState _ _ _) rfl)
  | succeeded hi => exact .inl (updated (keeps_setState _ _ _) rfl)
  | clearRow hk => exact .inl (updated keeps_materialized rfl)
  | _ => exact .inl ⟨row, hrow, rfl, rfl⟩

omit [TaskCodec Body] in
/-- More calls, the same rows. -/
theorem Row.FromCall.mono [BodyCodec Body] {args args' : String → Option RouteArgs}
    {row : Row Body} (h : row.FromCall args)
    (hmono : ∀ {id a}, args id = some a → args' id = some a) : row.FromCall args' := by
  obtain ⟨a, ha, hpay⟩ := h
  exact ⟨a, hmono ha, hpay⟩

/-- A body written whole is the record of its call. -/
theorem BodiesMatch.write {args : String → Option RouteArgs} {r r' : Redis Body}
    {log : List Event} {ev : Event} {id : String} {a : RouteArgs} (h : BodiesMatch args r log)
    (ha : args id = some a) (hwrite : ev.writesBody id = true) (hsub : ev.subject = some id)
    (htask : r'.task = put r.task id (marshal (routeData a))) :
    BodiesMatch args r' (ev :: log) := by
  intro x b hb
  rw [htask] at hb
  rcases put_eq_some.mp hb with ⟨rfl, rfl⟩ | ⟨hx, hb⟩
  · refine ⟨a, ha, ?_⟩
    have hzero : sinceWrite x (ev :: log) = 0 := by simp [sinceWrite, hwrite]
    rw [hzero]
    exact TaskCodec.marshal_isDoc _ (routeData_fits a)
  · have hne : ev.subject ≠ some x := by
      rw [hsub]
      exact fun he => hx (Option.some.inj he).symm
    rw [sinceWrite_of_ne hne]
    exact h x b hb

/-- A command that writes no body whole. -/
theorem BodiesMatch.exec {args : String → Option RouteArgs} {e : Engine Body} {c : Call Body}
    (h : BodiesMatch args e.redis e.log) (hbody : ∀ a, c.op ≠ .routeBody a)
    (hmat : ∀ t score payload, c.op ≠ .materialize t score payload) :
    BodiesMatch args (e.exec c).redis (e.exec c).log := by
  have hstep : ∀ (r : Redis Body) log ev r', (∀ id, ev.writesBody id = false) → Effect r ev r' →
      BodiesMatch args r log → BodiesMatch args r' (ev :: log) :=
    fun _ _ _ _ hev heff hb => hb.effect hev heff
  refine (Redis.after_trace e.redis c.now c.op).invariant hstep e.log ?_ h
  refine .of_emits (fun ev _ hev id => ?_) _
  have hsource := Op.emits_source hev
  cases ev with
  | bodySet a => exact absurd hsource (hbody a)
  | materialized t =>
    obtain ⟨score, payload, hop⟩ := hsource
    exact absurd hop (hmat t score payload)
  | _ => rfl

/-- The bodies after a step. -/
theorem Recorded.bodies_step {w w' : World Body} {act : Act} (h : Recorded w)
    (hst : w.step act = some w') : BodiesMatch w.argsOf w'.engine.redis w'.engine.log := by
  cases World.moves hst with
  | @routeSet id c hc hpc =>
    have ha : w.argsOf id = some c.args := by
      rw [World.argsOf, hc]
      rfl
    have hid : c.args.id = id := h.ids id c.args ha
    have hwrite : (Event.bodySet c.args).writesBody c.args.id = true := by
      simp [Event.writesBody]
    refine h.bodies.write ?_ hwrite rfl rfl
    rw [hid]
    exact ha
  | @materializeRow k next row rest full clock hk =>
    have hpage : row ∈ (w.reconcilers k).page := by
      rw [hk]
      exact List.mem_cons_self
    obtain ⟨a, ha, hpay⟩ := h.pages k row hpage
    rcases exec_materialize w.engine 0 row.id (materializeScore clock row) row.payload with
      ⟨-, hsame⟩ | ⟨-, hnew⟩
    · show BodiesMatch w.argsOf (w.engine.exec _).redis (w.engine.exec _).log
      rw [hsame]
      exact h.bodies
    · show BodiesMatch w.argsOf (w.engine.exec _).redis (w.engine.exec _).log
      rw [hnew]
      refine h.bodies.write ha ?_ rfl ?_
      · simp [Event.writesBody]
      · rw [hpay]
        cases materializeScore clock row <;> rfl
  | routePush hc hpc => exact h.bodies.exec nofun nofun
  | claim hi => exact h.bodies.exec nofun nofun
  | handlerFail hi => exact h.bodies.exec nofun nofun
  | recover hi => exact h.bodies.exec nofun nofun
  | ack hi => exact h.bodies.exec nofun nofun
  | heartbeat => exact h.bodies.exec nofun nofun
  | promote => exact h.bodies.exec nofun nofun
  | wipe => exact .empty _ _
  | _ => exact h.bodies

/-- **Step.** -/
theorem Recorded.step {w w' : World Body} {act : Act} (h : Recorded w)
    (hst : w.step act = some w') : Recorded w' := by
  have hmono : ∀ {id a}, w.argsOf id = some a → w'.argsOf id = some a :=
    fun ha => World.argsOf_mono h.ids hst ha
  refine ⟨?_, ?_, ?_, ?_⟩
  · intro id a ha
    rcases World.argsOf_step h.ids hst with heq | ⟨a', -, heq⟩
    · rw [heq] at ha
      exact h.ids id a ha
    · rw [heq] at ha
      rcases put_eq_some.mp ha with ⟨rfl, rfl⟩ | ⟨-, ha⟩
      · rfl
      · exact h.ids id a ha
  · intro row hrow
    rcases journal_step hst hrow with ⟨old, hold, hid, hpay⟩ | ⟨a, ha, hid, hpay⟩
    · obtain ⟨a, ha, hold'⟩ := h.rows old hold
      exact ⟨a, by rw [hid]; exact hmono ha, hpay.trans hold'⟩
    · exact ⟨a, by rw [hid]; exact ha, hpay⟩
  · intro k row hrow
    rcases page_step hst hrow with hold | ⟨cursor, -, -, hpage⟩
    · exact (h.pages k row hold).mono hmono
    · exact (h.rows row (mem_active hpage).1).mono hmono
  · intro id b hb
    obtain ⟨a, ha, hdoc⟩ := h.bodies_step hst id b hb
    exact ⟨a, hmono ha, hdoc⟩

/-- **Run.** -/
theorem Recorded.run {ok : World Body → Act → Prop} {w w' : World Body} {acts : List Act}
    (h : Recorded w) (hrun : WorldRun ok w acts w') : Recorded w' :=
  hrun.invariant Recorded (fun _ _ _ _ hst hi => hi.step hst) h

end World

end ForgeQueue
