import ForgeQueue.Logic.Scripts

/-!
# Tasks do not leave Redis unfinished

The engine-level half of the durability argument, for every command but the
operator's. `Sound` ties bodies to ids: what is stored under `task:<id>` is a document
of task `id`, and an id in one of the hot structures has its body unless it was
acknowledged. Under it, an id that is in Redis stays there until it is acknowledged or
dead-lettered (`Kept.after`); only a wipe takes it away.
-/

namespace ForgeQueue

open Base

/-- Some `ackBatch` returned the task. -/
def Acked (log : List Event) (id : String) : Prop := ∃ l, .acked id l ∈ log

/-- Some `requeueOrDead` of the task answered `dead`. -/
def DeadLettered (log : List Event) (id : String) : Prop :=
  (∃ l, .failed id l (some .dead) ∈ log) ∨ ∃ l, .reclaimed id l (some .dead) ∈ log

/-- The task reached a terminal event in Redis. -/
def Finished (log : List Event) (id : String) : Prop := Acked log id ∨ DeadLettered log id

theorem Acked.append {log : List Event} {id : String} (h : Acked log id) (evs : List Event) :
    Acked (evs ++ log) id := by
  obtain ⟨l, hl⟩ := h
  exact ⟨l, List.mem_append_right _ hl⟩

theorem DeadLettered.append {log : List Event} {id : String} (h : DeadLettered log id)
    (evs : List Event) : DeadLettered (evs ++ log) id := by
  rcases h with ⟨l, hl⟩ | ⟨l, hl⟩
  · exact .inl ⟨l, List.mem_append_right _ hl⟩
  · exact .inr ⟨l, List.mem_append_right _ hl⟩

theorem Finished.append {log : List Event} {id : String} (h : Finished log id)
    (evs : List Event) : Finished (evs ++ log) id :=
  h.imp (·.append evs) (·.append evs)

section

variable {Body : Type} [BodyCodec Body]

/-- The body is a document of a task with this id. -/
def BodyOf (id : String) (b : Body) : Prop := ∃ t, IsDoc b t ∧ t.id = id

/-- The body is stored, or the task was acknowledged. -/
def HasBody (r : Redis Body) (log : List Event) (id : String) : Prop :=
  (r.task id).isSome ∨ Acked log id

/-- Bodies and ids agree. -/
structure Sound (r : Redis Body) (log : List Event) : Prop where
  coupled : Coupled r
  docs : ∀ id b, r.task id = some b → BodyOf id b
  bodies : ∀ id, r.Live id → HasBody r log id

theorem Sound.empty (log : List Event) : Sound (Redis.empty : Redis Body) log where
  coupled := .empty
  docs _ _ h := by cases h
  bodies id h := by
    rcases h with h | h | h
    · cases h
    · cases h
    · cases h

/-- The task is in Redis or finished. -/
def Kept (r : Redis Body) (log : List Event) (id : String) : Prop :=
  r.Live id ∨ Finished log id

end

section Steps

variable {Body : Type} [TaskCodec Body]

/-- What `requeueOrDead` leaves of a leased task whose body is sound: a scheduled
entry, or a dead-lettering; only an acknowledged task may lack its body. -/
theorem Sound.retry {r : Redis Body} {log : List Event} {t : String} (h : Sound r log)
    (hlive : r.Live t) (now base cap : ℚ) :
    (∃ b', BodyOf t b' ∧ (retryOrBury now base cap t (r.release t)).1.task = put r.task t b' ∧
      (((retryOrBury now base cap t (r.release t)).2 = some .dead ∧
          (retryOrBury now base cap t (r.release t)).1.scheduled = r.scheduled) ∨
        ((retryOrBury now base cap t (r.release t)).2 = some .scheduled ∧
          ∃ s, (retryOrBury now base cap t (r.release t)).1.scheduled =
            put r.scheduled t s))) ∨
    (Acked log t ∧ retryOrBury now base cap t (r.release t) = (r.release t, some .noBody)) := by
  cases hb : r.task t with
  | none =>
    refine .inr ⟨(h.bodies t hlive).resolve_left (by rw [hb]; nofun), ?_⟩
    rw [retryOrBury, release_task, hb]
  | some b =>
    obtain ⟨doc, hdoc, hid⟩ := h.docs t b hb
    obtain ⟨b', hdoc', heq⟩ := retryOrBury_doc now base cap t (r.release t) hb hdoc
    refine .inl ⟨b', ⟨doc.bump, hdoc', hid⟩, ?_⟩
    rw [heq]
    by_cases hx : doc.Exhausted
    · rw [if_pos hx]
      exact ⟨rfl, .inl ⟨rfl, rfl⟩⟩
    · rw [if_neg hx]
      exact ⟨rfl, .inr ⟨rfl, _, rfl⟩⟩

/-- The events of every command but a push, a materialization or an operator's. -/
def QuietOk (_ : List Event) : Event → Prop
  | .enqueued _ | .materialized _ | .requeued _ | .deleted _ | .wiped => False
  | _ => True

/-- An event about `t` needs a look at `t` only. -/
theorem Sound.at_subject {r r' : Redis Body} {log : List Event} {ev : Event} {t : String}
    (h : Sound r log) (heff : Effect r ev r') (hsub : ev.subject = some t)
    (hdoc : ∀ b, r'.task t = some b → BodyOf t b)
    (hbody : r'.Live t → HasBody r' (ev :: log) t) : Sound r' (ev :: log) := by
  have hw : ev ≠ .wiped := by rintro rfl; cases hsub
  have hother : ∀ {x}, x ≠ t → ev.subject ≠ some x := by
    intro x hx he
    exact hx (Option.some.inj (he.symm.trans hsub))
  refine ⟨h.coupled.effect heff, ?_, ?_⟩
  · intro x b hb
    by_cases hx : x = t
    · subst hx
      exact hdoc b hb
    · rw [(heff.sameAt (hother hx) hw).task] at hb
      exact h.docs x b hb
  · intro x hlive
    by_cases hx : x = t
    · subst hx
      exact hbody hlive
    · have hs := heff.sameAt (hother hx) hw
      refine (h.bodies x (hs.live.mp hlive)).imp (fun hb => ?_) (·.append [ev])
      rw [hs.task]
      exact hb

/-- A failed attempt keeps bodies and ids in agreement. -/
theorem Sound.failed {r r' : Redis Body} {log : List Event} {ev : Event} {t : String}
    (h : Sound r log) (heff : Effect r ev r') (hsub : ev.subject = some t) (hlive : r.Live t)
    {now base cap : ℚ} (hr : r' = (retryOrBury now base cap t (r.release t)).1) :
    Sound r' (ev :: log) := by
  rcases h.retry hlive now base cap with ⟨b', hb', htask, -⟩ | ⟨hack, heq⟩
  · rw [← hr] at htask
    refine h.at_subject heff hsub ?_ ?_
    · intro b hb
      rw [htask, put_self] at hb
      exact Option.some.inj hb ▸ hb'
    · intro _
      left
      rw [htask, put_self]
      rfl
  · rw [heq] at hr
    refine h.at_subject heff hsub ?_ (fun _ => .inr (hack.append [ev]))
    rw [hr]
    exact fun b hb => h.docs t b hb

/-- **Step.** -/
theorem Sound.effect {r r' : Redis Body} {log : List Event} {ev : Event} (h : Sound r log)
    (hok : QuietOk log ev) (heff : Effect r ev r') : Sound r' (ev :: log) := by
  have heff' := heff
  cases heff with
  | bodySet a =>
    refine h.at_subject heff' rfl ?_ ?_
    · intro b hb
      change put r.task a.id _ a.id = some b at hb
      rw [put_self] at hb
      obtain rfl := Option.some.inj hb
      exact ⟨routeData a, TaskCodec.marshal_isDoc _ (routeData_fits a), rfl⟩
    · intro _
      left
      show (put r.task a.id (marshal (routeData a)) a.id).isSome = true
      rw [put_self]
      rfl
  | paused on =>
    refine ⟨h.coupled.effect heff', h.docs, ?_⟩
    exact fun x hx => (h.bodies x hx).imp id (·.append [_])
  | claimed t ready l e _ hr =>
    refine h.at_subject heff' rfl (fun b hb => h.docs t b hb) ?_
    intro _
    refine (h.bodies t (.inl ?_)).imp id (·.append [_])
    rw [hr]
    exact List.mem_cons_self
  | beat t l e hl =>
    refine h.at_subject heff' rfl (fun b hb => h.docs t b hb) ?_
    intro _
    exact (h.bodies t (.inr (.inl (h.coupled.inflight hl)))).imp id (·.append [_])
  | acked t l hl =>
    refine h.at_subject heff' rfl ?_ (fun _ => .inr ⟨l, List.mem_cons_self⟩)
    intro b hb
    change del r.task t t = some b at hb
    rw [del_self] at hb
    cases hb
  | failed t l now base cap _ hl =>
    exact h.failed heff' rfl (.inr (.inl (h.coupled.inflight hl))) rfl
  | reclaimed t e now base cap he _ =>
    refine h.failed heff' rfl (.inr (.inl ?_)) rfl
    rw [he]
    rfl
  | promoted t score now hs _ =>
    refine h.at_subject heff' rfl (fun b hb => h.docs t b hb) ?_
    intro _
    refine (h.bodies t (.inr (.inr ?_))).imp id (·.append [_])
    rw [hs]
    rfl
  | enqueued _ _ => exact hok.elim
  | materialized _ _ _ _ => exact hok.elim
  | requeued _ => exact hok.elim
  | deleted _ => exact hok.elim
  | wiped => exact hok.elim

/-- A failed attempt leaves the task scheduled or dead-lettered, unless it was
acknowledged before. -/
theorem Sound.kept_failed {r : Redis Body} {log : List Event} {ev : Event} {t : String}
    (h : Sound r log) (hlive : r.Live t) (now base cap : ℚ)
    (hev : (retryOrBury now base cap t (r.release t)).2 = some .dead →
      DeadLettered (ev :: log) t) :
    Kept (retryOrBury now base cap t (r.release t)).1 (ev :: log) t := by
  rcases h.retry hlive now base cap with ⟨_, -, -, hout⟩ | ⟨hack, -⟩
  · rcases hout with ⟨hd, -⟩ | ⟨-, s, hs⟩
    · exact .inr (.inr (hev hd))
    · refine .inl (.inr (.inr ?_))
      rw [hs, put_self]
      rfl
  · exact .inr (.inl (hack.append [ev]))

/-- **Step.** No command takes an unfinished task out of Redis. -/
theorem Kept.effect {r r' : Redis Body} {log : List Event} {ev : Event} {x : String}
    (hk : Kept r log x) (h : Sound r log) (hok : QuietOk log ev) (heff : Effect r ev r') :
    Kept r' (ev :: log) x := by
  rcases hk with hlive | hfin
  swap
  · exact .inr (hfin.append [ev])
  by_cases hsub : ev.subject = some x
  swap
  · have hw : ev ≠ .wiped := by rintro rfl; exact hok
    exact .inl ((heff.sameAt hsub hw).live.mpr hlive)
  cases heff with
  | bodySet a => exact .inl hlive
  | paused on => exact .inl hlive
  | claimed t ready l e _ _ =>
    obtain rfl := Option.some.inj hsub
    refine .inl (.inr (.inl ?_))
    show (put r.inflight t e t).isSome = true
    rw [put_self]
    rfl
  | beat t l e _ =>
    obtain rfl := Option.some.inj hsub
    refine .inl (.inr (.inl ?_))
    show (put r.inflight t e t).isSome = true
    rw [put_self]
    rfl
  | acked t l _ =>
    obtain rfl := Option.some.inj hsub
    exact .inr (.inl ⟨l, List.mem_cons_self⟩)
  | failed t l now base cap _ _ =>
    obtain rfl := Option.some.inj hsub
    refine h.kept_failed hlive now base cap ?_
    intro hd
    exact .inl ⟨l, by rw [hd]; exact List.mem_cons_self⟩
  | reclaimed t e now base cap _ _ =>
    obtain rfl := Option.some.inj hsub
    refine h.kept_failed hlive now base cap ?_
    intro hd
    exact .inr ⟨_, by rw [hd]; exact List.mem_cons_self⟩
  | promoted t score now _ _ =>
    obtain rfl := Option.some.inj hsub
    exact .inl (.inl List.mem_cons_self)
  | enqueued _ _ => exact hok.elim
  | materialized _ _ _ _ => exact hok.elim
  | requeued _ => exact hok.elim
  | deleted _ => exact hok.elim
  | wiped => exact hok.elim

/-! ## Whole commands -/

/-- What a command must bring along: a push its body, a materialization a body of its
own task. No operator, no wipe. -/
def OpOk (r : Redis Body) (log : List Event) : Op Body → Prop
  | .routePush a _ => HasBody r log a.id
  | .materialize id _ payload => BodyOf id payload
  | .requeueTx _ | .deleteTx _ | .wipe => False
  | _ => True

omit [TaskCodec Body] in
/-- A push adds its id and changes nothing else. -/
theorem routePush_live {r : Redis Body} (target : Option ℚ) (id x : String) :
    (routePush target id r).Live x ↔ x = id ∨ r.Live x := by
  unfold routePush Redis.Live
  cases target with
  | none => simp [or_assoc]
  | some score =>
    by_cases hx : x = id
    · simp [hx]
    · simp [hx]

/-- A push keeps `Sound` when its body is there. -/
theorem Sound.push {r : Redis Body} {log : List Event} {t : String} (h : Sound r log)
    (hb : HasBody r log t) (target : Option ℚ) (ev : Event) :
    Sound (routePush target t r) (ev :: log) := by
  refine ⟨?_, ?_, ?_⟩
  · cases target <;> exact h.coupled
  · intro x b hx
    rw [routePush_task] at hx
    exact h.docs x b hx
  · intro x hx
    unfold HasBody
    rw [routePush_task]
    rcases (routePush_live target t x).mp hx with rfl | hx
    · exact hb.imp id (·.append [ev])
    · exact (h.bodies x hx).imp id (·.append [ev])

omit [TaskCodec Body] in
/-- Writing a body removes none. -/
theorem HasBody.setBody {r : Redis Body} {log : List Event} {x : String}
    (h : HasBody r log x) (t : String) (b : Body) :
    HasBody { r with task := put r.task t b } log x := by
  refine h.imp (fun hs => ?_) id
  show (put r.task t b x).isSome = true
  by_cases hx : x = t
  · rw [hx, put_self]; rfl
  · rw [put_of_ne _ _ hx]; exact hs

/-- Writing a body of its own task keeps `Sound`. -/
theorem Sound.setBody {r : Redis Body} {log : List Event} {t : String} {b : Body}
    (h : Sound r log) (hb : BodyOf t b) : Sound { r with task := put r.task t b } log := by
  refine ⟨h.coupled, ?_, fun x hx => (h.bodies x hx).setBody t b⟩
  intro x b' hx
  rcases put_eq_some.mp hx with ⟨rfl, rfl⟩ | ⟨-, hx'⟩
  · exact hb
  · exact h.docs x b' hx'

/-- **Step.** Only an acknowledgement removes a body. -/
theorem HasBody.effect {r r' : Redis Body} {log : List Event} {ev : Event} {x : String}
    (hb : HasBody r log x) (hok : QuietOk log ev) (heff : Effect r ev r') :
    HasBody r' (ev :: log) x := by
  by_cases hsub : ev.subject = some x
  swap
  · have hw : ev ≠ .wiped := by rintro rfl; exact hok
    refine hb.imp (fun hs => ?_) (·.append [ev])
    rw [(heff.sameAt hsub hw).task]
    exact hs
  cases heff with
  | bodySet a => exact (hb.setBody _ _).imp id (·.append [_])
  | paused on => exact hb.imp id (·.append [_])
  | claimed t ready l e _ _ => exact hb.imp id (·.append [_])
  | beat t l e _ => exact hb.imp id (·.append [_])
  | acked t l _ =>
    obtain rfl := Option.some.inj hsub
    exact .inr ⟨l, List.mem_cons_self⟩
  | failed t l now base cap _ _ =>
    obtain rfl := Option.some.inj hsub
    exact hb.imp (retryOrBury_frame now base cap t (r.release t)).taskSome (·.append [_])
  | reclaimed t e now base cap _ _ =>
    obtain rfl := Option.some.inj hsub
    exact hb.imp (retryOrBury_frame now base cap t (r.release t)).taskSome (·.append [_])
  | promoted t score now _ _ => exact hb.imp id (·.append [_])
  | enqueued _ _ => exact hok.elim
  | materialized _ _ _ _ => exact hok.elim
  | requeued _ => exact hok.elim
  | deleted _ => exact hok.elim
  | wiped => exact hok.elim

/-- A command that emits quiet events only. -/
def Op.Quiet : Op Body → Prop
  | .routePush .. | .materialize .. | .requeueTx _ | .deleteTx _ | .wipe => False
  | _ => True

theorem Op.Quiet.allowed {op : Op Body} (h : op.Quiet) (r : Redis Body) (log : List Event)
    (now : ℚ) : Allowed QuietOk log (r.events now op) := by
  refine .of_emits ?_ log
  intro ev _ hev
  cases op with
  | routePush _ _ => exact h.elim
  | materialize _ _ _ => exact h.elim
  | requeueTx _ => exact h.elim
  | deleteTx _ => exact h.elim
  | wipe => exact h.elim
  | routeBody a => rw [hev]; trivial
  | pause => rw [hev]; trivial
  | resume => rw [hev]; trivial
  | claimBatch leaseIDs expiry => obtain ⟨t, l, -, rfl⟩ := hev; trivial
  | heartbeat taskID leaseID d => obtain ⟨x, rfl⟩ := hev; trivial
  | ackBatch pairs => obtain ⟨t, l, rfl⟩ := hev; trivial
  | requeueOrDead taskID leaseID base cap =>
    rcases hev with ⟨status, rfl⟩ | ⟨l, status, rfl⟩ <;> trivial
  | promoteTask taskID => rw [hev]; trivial

omit [TaskCodec Body] in
/-- A materialization does nothing, or writes the body and pushes the id. -/
theorem exec_materialize [BodyCodec Body] (e : Engine Body) (now : ℚ) (id : String)
    (score : Option ℚ) (payload : Body) :
    (e.redis.Live id ∧ e.exec ⟨now, .materialize id score payload⟩ = e) ∨
    (¬ e.redis.Live id ∧ e.exec ⟨now, .materialize id score payload⟩ =
      ⟨routePush score id { e.redis with task := put e.redis.task id payload },
        .materialized id :: e.log⟩) := by
  by_cases hl : e.redis.Live id
  · refine .inl ⟨hl, ?_⟩
    simp only [Engine.exec, Redis.after, Redis.events, materializeScript, if_pos hl]
    rfl
  · refine .inr ⟨hl, ?_⟩
    simp only [Engine.exec, Redis.after, Redis.events, materializeScript, if_neg hl]
    cases score <;> rfl

/-- **Commands.** A command keeps what quiet effects keep, what a push keeps, and what
a materialization keeps. -/
theorem exec_keeps {P : Redis Body → List Event → Prop} {e : Engine Body} {c : Call Body}
    (hs : Sound e.redis e.log) (hop : OpOk e.redis e.log c.op)
    (hquiet : ∀ r log ev r', Sound r log → QuietOk log ev → Effect r ev r' → P r log →
      P r' (ev :: log))
    (hpush : ∀ r log target id ev, P r log → P (routePush target id r) (ev :: log))
    (hbody : ∀ r log id b, P r log → P { r with task := put r.task id b } log)
    (h : P e.redis e.log) : P (e.exec c).redis (e.exec c).log := by
  obtain ⟨now, op⟩ := c
  have quiet : op.Quiet → P (e.exec ⟨now, op⟩).redis (e.exec ⟨now, op⟩).log := by
    intro hq
    have hstep : ∀ (r : Redis Body) log ev r', QuietOk log ev → Effect r ev r' →
        Sound r log ∧ P r log → Sound r' (ev :: log) ∧ P r' (ev :: log) :=
      fun r log ev r' hok heff hi =>
        ⟨hi.1.effect hok heff, hquiet r log ev r' hi.1 hok heff hi.2⟩
    exact ((Redis.after_trace e.redis now op).invariant
      (fun r log ev r' => hstep r log ev r') e.log (hq.allowed _ _ _) ⟨hs, h⟩).2
  cases op with
  | routePush a clock => exact hpush _ _ _ _ _ h
  | materialize id score payload =>
    rcases exec_materialize e now id score payload with ⟨-, heq⟩ | ⟨-, heq⟩
    · rw [heq]; exact h
    · rw [heq]; exact hpush _ _ _ _ _ (hbody _ _ _ _ h)
  | requeueTx _ => exact hop.elim
  | deleteTx _ => exact hop.elim
  | wipe => exact hop.elim
  | _ => exact quiet trivial

/-- A command keeps `Sound`. -/
theorem Sound.exec {e : Engine Body} (h : Sound e.redis e.log) {c : Call Body}
    (hop : OpOk e.redis e.log c.op) : Sound (e.exec c).redis (e.exec c).log := by
  obtain ⟨now, op⟩ := c
  have quiet : op.Quiet → Sound (e.exec ⟨now, op⟩).redis (e.exec ⟨now, op⟩).log := fun hq =>
    (Redis.after_trace e.redis now op).invariant
      (fun _ _ _ _ hok heff hi => hi.effect hok heff) e.log (hq.allowed _ _ _) h
  cases op with
  | routePush a clock => exact h.push hop _ _
  | materialize id score payload =>
    rcases exec_materialize e now id score payload with ⟨-, heq⟩ | ⟨-, heq⟩
    · rw [heq]; exact h
    · rw [heq]
      refine (h.setBody hop).push (.inl ?_) _ _
      show (put e.redis.task id payload id).isSome = true
      rw [put_self]
      rfl
  | requeueTx _ => exact hop.elim
  | deleteTx _ => exact hop.elim
  | wipe => exact hop.elim
  | _ => exact quiet trivial

/-- A command keeps every kept task. -/
theorem Kept.exec {e : Engine Body} {c : Call Body} {x : String} (hk : Kept e.redis e.log x)
    (hs : Sound e.redis e.log) (hop : OpOk e.redis e.log c.op) :
    Kept (e.exec c).redis (e.exec c).log x := by
  refine exec_keeps (P := fun r log => Kept r log x) hs hop ?_ ?_ ?_ hk
  · intro r log ev r' hs hok heff h
    exact h.effect hs hok heff
  · intro r log target id ev h
    exact h.imp (fun hl => (routePush_live _ _ _).mpr (.inr hl)) (·.append [ev])
  · exact fun r log id b h => h

/-- A command removes the body of no task but an acknowledged one. -/
theorem HasBody.exec {e : Engine Body} {c : Call Body} {x : String}
    (hb : HasBody e.redis e.log x) (hs : Sound e.redis e.log)
    (hop : OpOk e.redis e.log c.op) : HasBody (e.exec c).redis (e.exec c).log x := by
  refine exec_keeps (P := fun r log => HasBody r log x) hs hop ?_ ?_ ?_ hb
  · intro r log ev r' _ hok heff h
    exact h.effect hok heff
  · intro r log target id ev h
    refine h.imp (fun hs => ?_) (·.append [ev])
    rw [routePush_task]
    exact hs
  · exact fun r log id b h => h.setBody id b

end Steps

end ForgeQueue
