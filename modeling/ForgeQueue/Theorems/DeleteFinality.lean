import ForgeQueue.Logic.Filed
import ForgeQueue.Model.JsonBody
import Mathlib.Data.List.Perm.Subperm

/-!
# Deleting a task under a running engine

`deleteTask` first clears the dead list of the task, one entry at a time, and then removes
everything else in a transaction. The transaction takes the lease away, so no worker can
bring the task back. The dead list is the exception: it was read at the very beginning,
and a failed attempt that comes after that read leaves an entry nobody removes.
-/

namespace ForgeQueue

open Base

section

variable {Body : Type} [BodyCodec Body]

/-- The task is in none of the four structures and has no body. -/
structure Off (id : String) (r : Redis Body) : Prop where
  ready : id ∉ r.immediate
  inflight : r.inflight id = none
  leases : r.leases id = none
  scheduled : r.scheduled id = none
  task : r.task id = none

/-- Nothing is left of the task. -/
def Gone (id : String) (r : Redis Body) : Prop := Off id r ∧ matching id r.dead = []

/-- What runs beside the call: worker scripts of any pools on any tasks, and gateway calls
for other tasks. -/
def Op.Beside (id : String) : Op Body → Prop
  | .routeBody a | .routePush a _ => a.id ≠ id
  | .materialize .. | .requeueTx _ | .deleteTx _ | .wipe => False
  | _ => True

/-- The interleavings of one call `k` with the engine. -/
def CallAlone (k : ℕ) (id : String) (_ : Desk Body) : DeskAct Body → Prop
  | .engine c => c.op.Beside id
  | .receive _ _ => True
  | .next j => j = k

/-- No command that runs between the call's `LRANGE` and its transaction puts an entry of
the task on the dead list. -/
def SparesEntries (k : ℕ) (id : String) (d : Desk Body) : DeskAct Body → Prop
  | .engine c =>
    match d.requests k with
    | some (.delete _ (.remove _)) | some (.delete _ .commit) =>
      matching id (d.redis.after c.now c.op).dead = matching id d.redis.dead
    | _ => True
  | _ => True

/-- The events of these commands. -/
def Event.Beside (id : String) : Event → Prop
  | .bodySet a | .enqueued a => a.id ≠ id
  | .materialized _ | .requeued _ | .deleted _ | .wiped => False
  | _ => True

omit [BodyCodec Body] in
theorem Op.Beside.event {id : String} {op : Op Body} {ev : Event} (hop : op.Beside id)
    (h : op.emits ev) : ev.Beside id := by
  have hsource := Op.emits_source h
  cases ev with
  | bodySet a =>
    obtain rfl : op = _ := hsource
    exact hop
  | enqueued a =>
    obtain ⟨clock, rfl⟩ := hsource
    exact hop
  | materialized t =>
    obtain ⟨score, payload, rfl⟩ := hsource
    exact hop.elim
  | requeued t =>
    obtain rfl : op = _ := hsource
    exact hop.elim
  | deleted t =>
    obtain rfl : op = _ := hsource
    exact hop.elim
  | wiped =>
    obtain rfl : op = _ := hsource
    exact hop.elim
  | _ => trivial

/-! ## The dead list only grows -/

/-- A worker's script pushes onto the dead list and removes nothing. -/
theorem dead_suffix_effect {id : String} {r r' : Redis Body} {ev : Event}
    (hev : ev.Beside id) (h : Effect r ev r') : r.dead <:+ r'.dead := by
  have hretry : ∀ now base cap t,
      r.dead <:+ (retryOrBury now base cap t (r.release t)).1.dead := by
    intro now base cap t
    rcases (retryOrBury_frame now base cap t (r.release t)).dead with heq | ⟨b, heq⟩
    · rw [heq]
      exact List.suffix_refl _
    · rw [heq]
      exact List.suffix_cons b _
  cases h with
  | failed t l now base cap _ _ => exact hretry now base cap t
  | reclaimed t e now base cap _ _ => exact hretry now base cap t
  | enqueued a clock =>
    unfold routePush
    split <;> exact List.suffix_refl _
  | materialized t target payload _ => exact hev.elim
  | requeued t => exact hev.elim
  | deleted t => exact hev.elim
  | wiped => exact hev.elim
  | _ => exact List.suffix_refl _

theorem matching_suffix {id : String} {op : Op Body} (hop : op.Beside id) (r : Redis Body)
    (now : ℚ) : matching id r.dead <:+ matching id (r.after now op).dead := by
  have hdead : r.dead <:+ (r.after now op).dead := by
    refine (r.after_trace now op).keeps (P := fun r' => r.dead <:+ r'.dead) ?_
      (List.suffix_refl _)
    intro r₁ ev r₂ hev heff h
    exact h.trans (dead_suffix_effect (hop.event (Redis.emits_of_mem hev)) heff)
  exact hdead.filter _

end

/-! ## After the transaction -/

section

variable {Body : Type} [TaskCodec Body]

omit [TaskCodec Body] in
/-- The transaction takes the task out of everything but the dead list. -/
theorem Off.deleteTx (id : String) (r : Redis Body) : Off id (deleteTx id r) where
  ready := by simp [ForgeQueue.deleteTx]
  inflight := del_self _ _
  leases := del_self _ _
  scheduled := del_self _ _
  task := del_self _ _

omit [TaskCodec Body] in
theorem SameAt.off {id : String} {r r' : Redis Body} (hs : SameAt id r r') (h : Off id r) :
    Off id r' where
  ready := by
    rw [← List.count_eq_zero, hs.immediate]
    exact List.count_eq_zero.mpr h.ready
  inflight := hs.inflight.trans h.inflight
  leases := hs.leases.trans h.leases
  scheduled := hs.scheduled.trans h.scheduled
  task := hs.task.trans h.task

/-- **Fenced.** No event is about a task that is off: every one of them needs an entry. -/
theorem Off.subject_ne {id : String} {r r' : Redis Body} {ev : Event} (h : Off id r)
    (hev : ev.Beside id) (heff : Effect r ev r') : ev.subject ≠ some id := by
  cases heff with
  | bodySet a => exact fun hs => hev (Option.some.inj hs)
  | enqueued a clock => exact fun hs => hev (Option.some.inj hs)
  | paused on => exact nofun
  | claimed t ready l e _ hr =>
    intro hs
    obtain rfl := Option.some.inj hs
    exact h.ready (by rw [hr]; exact List.mem_cons_self)
  | beat t l e hl =>
    intro hs
    obtain rfl := Option.some.inj hs
    exact nomatch h.leases.symm.trans hl
  | acked t l hl =>
    intro hs
    obtain rfl := Option.some.inj hs
    exact nomatch h.leases.symm.trans hl
  | failed t l now base cap _ hl =>
    intro hs
    obtain rfl := Option.some.inj hs
    exact nomatch h.leases.symm.trans hl
  | reclaimed t e now base cap he _ =>
    intro hs
    obtain rfl := Option.some.inj hs
    exact nomatch h.inflight.symm.trans he
  | promoted t score now hsc _ =>
    intro hs
    obtain rfl := Option.some.inj hs
    exact nomatch h.scheduled.symm.trans hsc
  | materialized t target payload _ => exact hev.elim
  | requeued t => exact hev.elim
  | deleted t => exact hev.elim
  | wiped => exact hev.elim

/-- An effect on other tasks leaves the dead entries of this one alone. -/
theorem Filed.matching_effect {id : String} {r r' : Redis Body} {ev : Event} (h : Filed r)
    (hev : ev.Beside id) (heff : Effect r ev r') (hsub : ev.subject ≠ some id) :
    matching id r'.dead = matching id r.dead := by
  cases heff with
  | failed t l now base cap _ _ =>
    exact (h.retry now base cap t).2 id (fun he => hsub (by rw [he]; rfl))
  | reclaimed t e now base cap _ _ =>
    exact (h.retry now base cap t).2 id (fun he => hsub (by rw [he]; rfl))
  | enqueued a clock =>
    unfold routePush
    split <;> rfl
  | materialized t target payload _ => exact hev.elim
  | requeued t => exact hev.elim
  | deleted t => exact hev.elim
  | wiped => exact hev.elim
  | _ => rfl

/-- **Final.** A command of the engine leaves a task that is off as it is. -/
theorem Off.after {id : String} {op : Op Body} (hop : op.Beside id) {r : Redis Body} (now : ℚ)
    (h : Off id r) (hfiled : Filed r) :
    Off id (r.after now op) ∧ matching id (r.after now op).dead = matching id r.dead := by
  have hkeep := (r.after_trace now op).keeps
    (P := fun r' => Filed r' ∧ Off id r' ∧ matching id r'.dead = matching id r.dead) ?_
    ⟨hfiled, h, rfl⟩
  · exact hkeep.2
  · rintro r₁ ev r₂ hev heff ⟨hf, hoff, hm⟩
    have hbeside := hop.event (Redis.emits_of_mem hev)
    have hsub := hoff.subject_ne hbeside heff
    have hw : ev ≠ .wiped := by
      rintro rfl
      exact hbeside
    have hmat : ∀ t, ev ≠ .materialized t := by
      rintro t rfl
      exact hbeside
    exact ⟨hf.effect heff hmat, (heff.sameAt hsub hw).off hoff,
      (hf.matching_effect hbeside heff hsub).trans hm⟩

end

/-! ## The call among the workers -/

section

variable {Body : Type} [BodyCodec Body]

/-- The entries of the task that the call is still going to remove. -/
def DeletePc.todo (id : String) (r : Redis Body) : DeletePc Body → List Body
  | .range => matching id r.dead
  | .remove todo => todo
  | .commit | .done => []

@[simp] theorem todo_afterRange (id : String) (r : Redis Body) (todo : List Body) :
    (DeletePc.afterRange todo).todo id r = todo := by
  cases todo <;> rfl

/-- The dead list has no entry of the task beside those. -/
def DeletePc.Clean (id : String) (r : Redis Body) (pc : DeletePc Body) : Prop :=
  (pc.todo id r).length = (matching id r.dead).length

end

section

variable {Body : Type} [TaskCodec Body] [DecidableEq Body]

/-- The call has come to `pc`: what it is going to remove is still there, and after the
transaction the task is off. -/
structure Deleting (k : ℕ) (id : String) (d : Desk Body) (pc : DeletePc Body) : Prop where
  filed : d.Filed
  request : d.requests k = some (.delete id pc)
  listed : (pc.todo id d.redis).Subperm (matching id d.redis.dead)
  off : pc = .done → Off id d.redis

omit [TaskCodec Body] [DecidableEq Body] in
theorem Op.Beside.journalOff [BodyCodec Body] {id : String} {c : Call Body}
    (h : c.op.Beside id) (d : Desk Body) : JournalOff d (.engine c) := by
  intro t score payload hop
  rw [hop] at h
  exact h

/-- A command of the engine while the call is at `pc`. -/
theorem Deleting.engine {k : ℕ} {id : String} {d : Desk Body} {pc : DeletePc Body} {c : Call Body}
    (h : Deleting k id d pc) (hop : c.op.Beside id) :
    Deleting k id { d with redis := d.redis.after c.now c.op } pc ∧
      (pc.Clean id (d.redis.after c.now c.op) ↔
        pc.Clean id d.redis ∧ SparesEntries k id d (.engine c)) := by
  have hfiled : Desk.Filed { d with redis := d.redis.after c.now c.op } :=
    Desk.Filed.step h.filed (hop.journalOff d).bodiesFiled rfl
  have hsuffix := matching_suffix hop d.redis c.now
  -- entries come on top, so the call's own are still there
  have hopen : ∀ todo : List Body, todo.Subperm (matching id d.redis.dead) →
      (todo.length = (matching id (d.redis.after c.now c.op).dead).length ↔
        todo.length = (matching id d.redis.dead).length ∧
          matching id (d.redis.after c.now c.op).dead = matching id d.redis.dead) := by
    intro todo hsub
    have h1 := hsub.length_le
    have h2 := hsuffix.length_le
    refine ⟨fun heq => ?_, fun heq => by rw [heq.2]; exact heq.1⟩
    have h3 : todo.length = (matching id d.redis.dead).length := by omega
    exact ⟨h3, (hsuffix.eq_of_length (by omega)).symm⟩
  cases pc with
  | range =>
    refine ⟨⟨hfiled, h.request, List.Subperm.refl _, nofun⟩, ?_⟩
    simp [DeletePc.Clean, DeletePc.todo, SparesEntries, h.request]
  | remove todo =>
    refine ⟨⟨hfiled, h.request, h.listed.trans hsuffix.sublist.subperm, nofun⟩, ?_⟩
    have hspares : SparesEntries k id d (.engine c) ↔
        matching id (d.redis.after c.now c.op).dead = matching id d.redis.dead := by
      simp only [SparesEntries, h.request]
    rw [hspares]
    exact hopen todo h.listed
  | commit =>
    refine ⟨⟨hfiled, h.request, List.nil_subperm, nofun⟩, ?_⟩
    have hspares : SparesEntries k id d (.engine c) ↔
        matching id (d.redis.after c.now c.op).dead = matching id d.redis.dead := by
      simp only [SparesEntries, h.request]
    rw [hspares]
    exact hopen [] h.listed
  | done =>
    obtain ⟨hoff, hm⟩ := (h.off rfl).after hop c.now h.filed.store
    refine ⟨⟨hfiled, h.request, List.nil_subperm, fun _ => hoff⟩, ?_⟩
    simp only [DeletePc.Clean, SparesEntries, h.request, and_true]
    rw [hm]
    rfl

/-- The call's next command. -/
theorem Deleting.own {k : ℕ} {id : String} {d d' : Desk Body} {pc : DeletePc Body}
    (h : Deleting k id d pc) (hst : d.step (.next k) = some d') :
    ∃ pc', Deleting k id d' pc' ∧ (pc'.Clean id d'.redis ↔ pc.Clean id d.redis) := by
  obtain ⟨hopen, hredis, hreq⟩ := Desk.step_own h.request hst
  have hfiled : d'.Filed := h.filed.step (show BodiesFiled d (.next k) from trivial) hst
  cases pc with
  | range =>
    refine ⟨.afterRange (matching id d.redis.dead), ⟨hfiled, hreq, ?_, ?_⟩, ?_⟩
    · rw [hredis, todo_afterRange]
      exact List.Subperm.refl _
    · cases hm : matching id d.redis.dead <;> exact nofun
    · unfold DeletePc.Clean
      rw [hredis, todo_afterRange]
      rfl
  | remove todo =>
    cases todo with
    | nil =>
      refine ⟨.commit, ⟨hfiled, hreq, List.nil_subperm, nofun⟩, ?_⟩
      rw [hredis]
      rfl
    | cons body todo =>
      have hmem : body ∈ matching id d.redis.dead := h.listed.subset List.mem_cons_self
      have hm : matching id d'.redis.dead = (matching id d.redis.dead).erase body := by
        rw [hredis]
        show (d.redis.dead.erase body).filter (deadOf id) = _
        rw [← List.erase_filter]
        rfl
      refine ⟨.afterRange todo, ⟨hfiled, hreq, ?_, ?_⟩, ?_⟩
      · rw [todo_afterRange, hm]
        have hsub := h.listed.erase body
        rwa [DeletePc.todo, List.erase_cons_head] at hsub
      · cases todo <;> exact nofun
      · unfold DeletePc.Clean
        rw [todo_afterRange, hm, List.length_erase_of_mem hmem]
        have hpos := List.length_pos_of_mem hmem
        simp only [DeletePc.todo, List.length_cons]
        omega
  | commit =>
    refine ⟨.done, ⟨hfiled, hreq, List.nil_subperm, fun _ => ?_⟩, ?_⟩
    · rw [hredis]
      exact .deleteTx id d.redis
    · rw [hredis]
      rfl
  | done => cases hopen

/-- **Step.** The dead list stays clean exactly when the step spares it. -/
theorem Deleting.step {k : ℕ} {id : String} {d d' : Desk Body} {pc : DeletePc Body}
    {act : DeskAct Body} (h : Deleting k id d pc) (hok : CallAlone k id d act)
    (hst : d.step act = some d') :
    ∃ pc', Deleting k id d' pc' ∧
      (pc'.Clean id d'.redis ↔ pc.Clean id d.redis ∧ SparesEntries k id d act) := by
  cases act with
  | engine c =>
    obtain rfl : { d with redis := d.redis.after c.now c.op } = d' := Option.some.inj hst
    exact ⟨pc, h.engine hok⟩
  | receive j demand =>
    have hreq := Desk.step_other h.request (by exact nofun) hst
    have hfiled : d'.Filed := h.filed.step (show BodiesFiled d (.receive j demand) from trivial) hst
    obtain ⟨_, h', _⟩ | ⟨j', demand', -, -, rfl⟩ | ⟨_, _, h', _⟩ := Desk.step_cases hst
    · cases h'
    · exact ⟨pc, ⟨hfiled, hreq, h.listed, h.off⟩, by simp [SparesEntries]⟩
    · cases h'
  | next j =>
    obtain rfl : j = k := hok
    obtain ⟨pc', h', hclean⟩ := h.own hst
    exact ⟨pc', h', by simp [hclean, SparesEntries]⟩

/-- **Run.** The dead list is clean at the end exactly when every step spared it. -/
theorem Deleting.run {k : ℕ} {id : String} {d s : Desk Body} {acts : List (DeskAct Body)}
    (hrun : DeskRun (CallAlone k id) d acts s) :
    ∀ {pc : DeletePc Body}, Deleting k id d pc → ∃ pc', Deleting k id s pc' ∧
      (pc'.Clean id s.redis ↔ pc.Clean id d.redis ∧
        DeskRun (fun s act => CallAlone k id s act ∧ SparesEntries k id s act) d acts s) := by
  induction hrun with
  | nil =>
    intro pc h
    exact ⟨pc, h, fun hclean => ⟨hclean, .nil⟩, fun hclean => hclean.1⟩
  | @cons d act d₁ acts s hok hst hrest ih =>
    intro pc h
    obtain ⟨pc₁, h₁, hclean₁⟩ := h.step hok hst
    obtain ⟨pc', h', hclean'⟩ := ih h₁
    refine ⟨pc', h', ?_⟩
    rw [hclean', hclean₁]
    constructor
    · rintro ⟨⟨hclean, hspares⟩, hguarded⟩
      exact ⟨hclean, .cons ⟨hok, hspares⟩ hst hguarded⟩
    · rintro ⟨hclean, hguarded⟩
      cases hguarded with
      | cons hok' hst' hrest' =>
        obtain rfl := Option.some.inj (hst.symm.trans hst')
        exact ⟨⟨hclean, hok'.2⟩, hrest'⟩

/-- From any state reached without the journal, in any interleaving of one `deleteTask`
call with the engine, as soon as the call has returned and ever after, nothing is left of
the task, exactly when no script dead-letters it between the call's `LRANGE` and its
transaction. -/
theorem delete_final_iff_entries_spared {k : ℕ} {id : String} {d s : Desk Body}
    {before acts : List (DeskAct Body)} (hreach : DeskRun JournalOff Desk.init before d)
    (hstart : d.requests k = some (.delete id .range))
    (hrun : DeskRun (CallAlone k id) d acts s)
    (hdone : s.requests k = some (.delete id .done)) :
    Gone id s.redis ↔
      DeskRun (fun s act => CallAlone k id s act ∧ SparesEntries k id s act) d acts s := by
  have hdeleting : Deleting k id d .range :=
    ⟨Desk.Filed.init.run (hreach.mono fun _ _ _ hok _ => hok.bodiesFiled), hstart,
      List.Subperm.refl _, nofun⟩
  obtain ⟨pc, h, hclean⟩ := Deleting.run hrun hdeleting
  obtain rfl : pc = .done := by
    have heq := Option.some.inj (h.request.symm.trans hdone)
    injection heq
  have hgone : Gone id s.redis ↔ DeletePc.Clean id s.redis .done := by
    unfold Gone DeletePc.Clean
    rw [and_iff_right (h.off rfl)]
    exact ⟨fun hm => by rw [hm]; rfl, fun hm => List.eq_nil_of_length_eq_zero hm.symm⟩
  rw [hgone, hclean]
  exact and_iff_right rfl

end

/-! ## A harmless gap and a failed attempt in it -/

/-- The job has one attempt and is leased under `L1`; its deletion has come in. -/
def leasedThenDeleted : List (DeskAct JsonBody) :=
  [.engine ⟨0, .routeBody { sampleArgs with maxRetries := 1 }⟩,
    .engine ⟨0, .routePush { sampleArgs with maxRetries := 1 } 0⟩,
    .engine ⟨1, .claimBatch ["L1"] 31⟩, .receive 0 (.action (.deleteJob "job"))]

/-- The worker renews its lease in the gap and reports the failure after the call. -/
def failsAfterDelete : List (DeskAct JsonBody) :=
  [.next 0, .engine ⟨10, .heartbeat "job" "L1" 30⟩, .next 0,
    .engine ⟨11, .requeueOrDead "job" "L1" 1 60⟩]

theorem delete_final_iff_entries_spared_fenced :
    ∃ d s : Desk JsonBody, DeskRun JournalOff Desk.init leasedThenDeleted d ∧
      d.requests 0 = some (.delete "job" .range) ∧
      DeskRun (CallAlone 0 "job") d failsAfterDelete s ∧
      s.requests 0 = some (.delete "job" .done) ∧ Gone "job" s.redis := by
  have hbefore : ∃ d : Desk JsonBody, DeskRun JournalOff Desk.init leasedThenDeleted d ∧
      d.requests 0 = some (.delete "job" .range) ∧ ∃ s : Desk JsonBody,
      DeskRun (fun s act => CallAlone 0 "job" s act ∧ SparesEntries 0 "job" s act) d
        failsAfterDelete s ∧ s.requests 0 = some (.delete "job" .done) := by
    refine ⟨_, .cons (fun _ _ _ => nofun) rfl (.cons (fun _ _ _ => nofun) rfl
      (.cons (fun _ _ _ => nofun) rfl (.cons trivial rfl .nil))), rfl, ?_⟩
    exact ⟨_, .cons ⟨rfl, trivial⟩ rfl (.cons ⟨trivial, rfl⟩ rfl (.cons ⟨rfl, trivial⟩ rfl
      (.cons ⟨trivial, trivial⟩ rfl .nil))), rfl⟩
  obtain ⟨d, hreach, hstart, s, hguarded, hdone⟩ := hbefore
  have hrun : DeskRun (CallAlone 0 "job") d failsAfterDelete s :=
    hguarded.mono fun _ _ _ h _ => h.1
  exact ⟨d, s, hreach, hstart, hrun, hdone,
    (delete_final_iff_entries_spared hreach hstart hrun hdone).mpr hguarded⟩

/-- The worker reports the failure between `LRANGE` and the transaction. -/
def failsInGap : List (DeskAct JsonBody) :=
  [.next 0, .engine ⟨11, .requeueOrDead "job" "L1" 1 60⟩, .next 0]

/-- **Left behind.** The call has returned and a dead entry of the task remains. -/
theorem delete_leaves_dead_entry :
    ∃ d s : Desk JsonBody, DeskRun JournalOff Desk.init leasedThenDeleted d ∧
      d.requests 0 = some (.delete "job" .range) ∧
      DeskRun (CallAlone 0 "job") d failsInGap s ∧
      (s.requests 0).bind Request.response = some .noContent ∧
      s.redis.dead.any (deadOf "job") = true ∧ ¬ Gone "job" s.redis := by
  have hbefore : ∃ d : Desk JsonBody, DeskRun JournalOff Desk.init leasedThenDeleted d ∧
      d.requests 0 = some (.delete "job" .range) ∧
      (runList Desk.step d failsInGap).any (fun s =>
        decide ((s.requests 0).bind Request.response = some .noContent) &&
          s.redis.dead.any (deadOf "job")) = true := by
    refine ⟨_, .cons (fun _ _ _ => nofun) rfl (.cons (fun _ _ _ => nofun) rfl
      (.cons (fun _ _ _ => nofun) rfl (.cons trivial rfl .nil))), rfl, ?_⟩
    decide +kernel
  obtain ⟨d, hreach, hstart, hend⟩ := hbefore
  have hok : ∀ act ∈ failsInGap, ∀ s : Desk JsonBody, CallAlone 0 "job" s act := by
    intro act hact s
    simp only [failsInGap, List.mem_cons, List.not_mem_nil, or_false] at hact
    rcases hact with rfl | rfl | rfl
    · exact rfl
    · trivial
    · exact rfl
  obtain ⟨s, hrun, hs⟩ := Run.exists_of_any hok hend
  rw [Bool.and_eq_true] at hs
  refine ⟨d, s, hreach, hstart, hrun, of_decide_eq_true hs.1, hs.2, ?_⟩
  rintro ⟨-, hm⟩
  obtain ⟨b, hb, hjob⟩ := List.any_eq_true.mp hs.2
  have hmem : b ∈ matching "job" s.redis.dead := List.mem_filter.mpr ⟨hb, hjob⟩
  rw [hm] at hmem
  cases hmem

end ForgeQueue
