import ForgeQueue.Logic.Durable
import ForgeQueue.Logic.Pages

/-!
# The journal never runs ahead of Redis

`Journaled` is the invariant of the queue with its journal: a row is terminal only if
the matching event happened in Redis, its payload is a body of its own task, and every
process that is about to write something has what it needs to write it. It is kept by
every step of every process, by crashes between any two steps, and by wipes that no
gateway call straddles.
-/

namespace ForgeQueue

open Base

section Parts

variable {Body : Type} [BodyCodec Body]

/-- What never changes in a row: its payload is a body of its task, and it comes after
the zero cursor. -/
structure Row.Sealed (row : Row Body) : Prop where
  body : BodyOf row.id row.payload
  after : zeroCursor < row.key

/-- A terminal row reports an event of Redis. -/
structure RowOk (log : List Event) (row : Row Body) : Prop where
  isSealed : row.Sealed
  succeeded : row.state = .succeeded → Acked log row.id
  dead : row.state = .dead → DeadLettered log row.id

/-- A terminal row belongs to a finished task. -/
theorem RowOk.finished {log : List Event} {row : Row Body} (h : RowOk log row)
    (ht : row.state.terminal = true) : Finished log row.id := by
  cases hs : row.state with
  | succeeded => exact .inl (h.succeeded hs)
  | dead => exact .inr (h.dead hs)
  | enqueued => rw [hs] at ht; cases ht
  | processing => rw [hs] at ht; cases ht
  | retrying => rw [hs] at ht; cases ht

theorem RowOk.append {log : List Event} {row : Row Body} (h : RowOk log row)
    (evs : List Event) : RowOk (evs ++ log) row :=
  ⟨h.isSealed, fun hs => (h.succeeded hs).append evs, fun hd => (h.dead hd).append evs⟩

/-- A state may be written to a row if its event happened. -/
theorem RowOk.setState {log : List Event} {row : Row Body} (h : RowOk log row)
    {state : TaskState} (attempts : Int) (due : Option ℚ)
    (hs : state = .succeeded → Acked log row.id)
    (hd : state = .dead → DeadLettered log row.id) :
    RowOk log (row.setState state attempts due) :=
  ⟨⟨h.isSealed.body, h.isSealed.after⟩, hs, hd⟩

/-- The reports a goroutine still has to write are of events that happened. -/
def AgentOk (log : List Event) : AgentPc Body → Prop
  | .reporting id dead _ _ => dead = true → DeadLettered log id
  | .journaling id dead _ _ _ => dead = true → DeadLettered log id
  | .succeeding ids => ∀ id ∈ ids, Acked log id
  | _ => True

omit [BodyCodec Body] in
theorem AgentOk.append {log : List Event} {pc : AgentPc Body} (h : AgentOk log pc)
    (evs : List Event) : AgentOk (evs ++ log) pc := by
  cases pc with
  | idle => trivial
  | batch todo acks => trivial
  | handling claim task todo acks => trivial
  | reporting id dead todo acks => exact fun hd => (h hd).append evs
  | journaling id dead attempts todo acks => exact fun hd => (h hd).append evs
  | succeeding ids => exact fun id hid => (h id hid).append evs

omit [BodyCodec Body] in
/-- What follows a failed attempt reports a dead-lettering only if there was one. -/
theorem AgentOk.afterRequeue {log : List Event} {id : String} {status : Option RequeueStatus}
    (h : status = some .dead → DeadLettered log id) (todo : List (TaskClaim Body))
    (acks : List (String × String)) : AgentOk log (afterRequeue id status todo acks) := by
  unfold ForgeQueue.afterRequeue
  split
  · exact nofun
  · exact fun _ => h rfl
  · trivial

/-- The rows of the page are sealed, and a full page ends after the zero cursor. -/
def ReconcilerOk : ReconcilerPc Body → Prop
  | .idle _ => True
  | .sweeping next rest full =>
    (∀ row ∈ rest, row.Sealed) ∧ (full = true → rest = [] → zeroCursor < next)
  | .clearing row rest _ => row.Sealed ∧ ∀ row ∈ rest, row.Sealed

/-- A gateway call has its row, and what its next step relies on. -/
structure CallOk (e : Engine Body) (ids : List String) (id : String) (c : RouteCall) : Prop where
  args : c.args.id = id
  row : id ∈ ids
  body : c.pc = .bodySet → HasBody e.redis e.log id
  kept : c.pc = .pushed → Kept e.redis e.log id

/-- **The invariant.** -/
structure Journaled (w : World Body) : Prop where
  sound : Sound w.engine.redis w.engine.log
  rows : ∀ row ∈ w.journal, RowOk w.engine.log row
  ids : (w.journal.map Row.id).Nodup
  calls : ∀ id c, w.calls id = some c → CallOk w.engine (w.journal.map Row.id) id c
  called : ∀ row ∈ w.journal, (w.calls row.id).isSome
  agents : ∀ i, AgentOk w.engine.log (w.agents i)
  reconcilers : ∀ k, ReconcilerOk (w.reconcilers k)

/-- The runs of the durability argument: Postgres's clock is past Go's zero time, and no
gateway call straddles a wipe. -/
def JournalOk (w : World Body) : Act → Prop
  | .routeStart _ _ pgNow => (ofLex zeroCursor).1 < pgNow
  | .wipe => ∀ id c, w.calls id = some c → ¬ c.inProgress
  | _ => True

theorem Journaled.init : Journaled (World.init : World Body) where
  sound := .empty []
  rows _ h := by cases h
  ids := List.nodup_nil
  calls _ _ h := by cases h
  called _ h := by cases h
  agents _ := trivial
  reconcilers _ := trivial

end Parts

variable {Body : Type} [TaskCodec Body]

/-! ## The kinds of steps -/

theorem Journaled.exec {w : World Body} (h : Journaled w) (now : ℚ) (op : Op Body)
    (hop : OpOk w.engine.redis w.engine.log op) : Journaled (w.exec now op) where
  sound := h.sound.exec hop
  rows row hrow := (h.rows row hrow).append _
  ids := h.ids
  calls id c hc :=
    have hok := h.calls id c hc
    ⟨hok.args, hok.row, fun hpc => (hok.body hpc).exec h.sound hop,
      fun hpc => (hok.kept hpc).exec h.sound hop⟩
  called := h.called
  agents i := (h.agents i).append _
  reconcilers := h.reconcilers

/-- An update that reports only what happened. -/
theorem Journaled.update {w : World Body} (h : Journaled w) {f : Row Body → Row Body}
    (hf : Keeps f) (id : String)
    (hrow : ∀ row, row.id = id → RowOk w.engine.log row → RowOk w.engine.log (f row)) :
    Journaled { w with journal := journalUpdate id f w.journal } := by
  have hids : (journalUpdate id f w.journal).map Row.id = w.journal.map Row.id := by
    rw [map_id_eq, journalUpdate_keys hf, ← map_id_eq]
  refine ⟨h.sound, ?_, ?_, ?_, ?_, h.agents, h.reconcilers⟩
  · intro row hmem
    rcases mem_journalUpdate hmem with hmem | ⟨old, hold, hid, rfl⟩
    · exact h.rows row hmem
    · exact hrow old hid (h.rows old hold)
  · show ((journalUpdate id f w.journal).map Row.id).Nodup
    rw [hids]
    exact h.ids
  · intro x c hc
    show CallOk w.engine ((journalUpdate id f w.journal).map Row.id) x c
    rw [hids]
    exact h.calls x c hc
  · intro row hmem
    have hx : row.id ∈ w.journal.map Row.id := hids ▸ List.mem_map_of_mem hmem
    obtain ⟨old, hold, hid⟩ := List.mem_map.mp hx
    rw [← hid]
    exact h.called old hold

theorem Journaled.materialized {w : World Body} (h : Journaled w) (id : String) :
    Journaled { w with journal := journalMaterialized id w.journal } :=
  h.update keeps_materialized id fun _ _ hr =>
    ⟨⟨hr.isSealed.body, hr.isSealed.after⟩, hr.succeeded, hr.dead⟩

theorem Journaled.setAgent {w : World Body} (h : Journaled w) {i : ℕ} {pc : AgentPc Body}
    (hpc : AgentOk w.engine.log pc) : Journaled (w.setAgent i pc) where
  sound := h.sound
  rows := h.rows
  ids := h.ids
  calls := h.calls
  called := h.called
  agents := setAgent_forall (P := AgentOk w.engine.log) h.agents hpc
  reconcilers := h.reconcilers

theorem Journaled.setReconciler {w : World Body} (h : Journaled w) {k : ℕ}
    {pc : ReconcilerPc Body} (hpc : ReconcilerOk pc) : Journaled (w.setReconciler k pc) where
  sound := h.sound
  rows := h.rows
  ids := h.ids
  calls := h.calls
  called := h.called
  agents := h.agents
  reconcilers := setReconciler_forall (P := ReconcilerOk) h.reconcilers hpc

theorem Journaled.setCall {w : World Body} (h : Journaled w) {id : String} {c : RouteCall}
    {pc : RoutePc} (hc : w.calls id = some c)
    (hbody : pc = .bodySet → HasBody w.engine.redis w.engine.log id)
    (hkept : pc = .pushed → Kept w.engine.redis w.engine.log id) :
    Journaled (w.setCall c pc) := by
  have hok := h.calls id c hc
  refine ⟨h.sound, h.rows, h.ids, ?_, ?_, h.agents, h.reconcilers⟩
  · intro x c' hc'
    rcases put_eq_some.mp hc' with ⟨rfl, rfl⟩ | ⟨-, hc'⟩
    · rw [hok.args]
      exact ⟨hok.args, hok.row, hbody, hkept⟩
    · exact h.calls x c' hc'
  · intro row hmem
    show (put w.calls c.args.id _ row.id).isSome = true
    by_cases hx : row.id = c.args.id
    · rw [hx, put_self]; rfl
    · rw [put_of_ne _ _ hx]; exact h.called row hmem

/-- The id of a call that has not started has no row. -/
theorem Journaled.fresh {w : World Body} (h : Journaled w) {id : String}
    (hnew : w.calls id = none) : id ∉ w.journal.map Row.id := by
  intro hmem
  obtain ⟨row, hrow, rfl⟩ := List.mem_map.mp hmem
  have hsome := h.called row hrow
  rw [hnew] at hsome
  cases hsome

/-- The gateway's insert. The id is new, so the row is appended. -/
theorem Journaled.routeStart {w : World Body} (h : Journaled w) {a : RouteArgs}
    {clock pgNow : ℚ} (hnew : w.calls a.id = none) (hpg : (ofLex zeroCursor).1 < pgNow) :
    Journaled { w with
      journal := journalEnqueue pgNow (routeRow clock a) w.journal
      calls := put w.calls a.id ⟨a, clock, .journaled⟩ } := by
  have hfresh := h.fresh hnew
  have hrows := journalEnqueue_fresh pgNow (routeRow clock a) w.journal hfresh
  have hids : (journalEnqueue pgNow (routeRow clock a) w.journal).map Row.id =
      w.journal.map Row.id ++ [a.id] := by
    rw [hrows, List.map_append]
    rfl
  refine ⟨h.sound, ?_, ?_, ?_, ?_, h.agents, h.reconcilers⟩
  · intro row hmem
    rw [show journalEnqueue pgNow (routeRow clock a) w.journal = _ from hrows,
      List.mem_append, List.mem_singleton] at hmem
    rcases hmem with hmem | rfl
    · exact h.rows row hmem
    · refine ⟨⟨?_, ?_⟩, nofun, nofun⟩
      · exact ⟨routeData a, TaskCodec.marshal_isDoc _ (routeData_fits a), rfl⟩
      · exact Prod.Lex.toLex_lt_toLex.mpr (.inl hpg)
  · show ((journalEnqueue pgNow (routeRow clock a) w.journal).map Row.id).Nodup
    rw [hids]
    refine List.Nodup.append h.ids (List.nodup_singleton _) ?_
    exact List.disjoint_singleton.mpr hfresh
  · intro x c hc
    show CallOk w.engine ((journalEnqueue pgNow (routeRow clock a) w.journal).map Row.id) x c
    rw [hids]
    rcases put_eq_some.mp hc with ⟨rfl, rfl⟩ | ⟨-, hc⟩
    · exact ⟨rfl, by simp, nofun, nofun⟩
    · have hok := h.calls x c hc
      exact ⟨hok.args, List.mem_append_left _ hok.row, hok.body, hok.kept⟩
  · intro row hmem
    show (put w.calls a.id _ row.id).isSome = true
    by_cases hx : row.id = a.id
    · rw [hx, put_self]; rfl
    · rw [put_of_ne _ _ hx]
      rw [show journalEnqueue pgNow (routeRow clock a) w.journal = _ from hrows,
        List.mem_append, List.mem_singleton] at hmem
      rcases hmem with hmem | rfl
      · exact h.called row hmem
      · exact absurd rfl hx

/-- A wipe leaves nothing behind in Redis. No call is between two of its steps. -/
theorem Journaled.wipe {w : World Body} (h : Journaled w)
    (hout : ∀ id c, w.calls id = some c → ¬ c.inProgress) : Journaled (w.exec 0 .wipe) where
  sound := .empty _
  rows row hrow := (h.rows row hrow).append _
  ids := h.ids
  calls id c hc := by
    have hok := h.calls id c hc
    refine ⟨hok.args, hok.row, fun hpc => ?_, fun hpc => ?_⟩
    · exact absurd (show c.inProgress by simp [RouteCall.inProgress, hpc]) (hout id c hc)
    · exact absurd (show c.inProgress by simp [RouteCall.inProgress, hpc]) (hout id c hc)
  called := h.called
  agents i := (h.agents i).append _
  reconcilers := h.reconcilers

/-! ## What the scripts' answers say about the history -/

omit [TaskCodec Body] in
/-- Every id `ackBatch` returns was acknowledged. -/
theorem acked_of_ackBatch [BodyCodec Body] {e : Engine Body} {now : ℚ}
    {pairs : List (String × String)} {id : String} (h : id ∈ (ackBatch pairs e.redis).2) :
    Acked (e.exec ⟨now, .ackBatch pairs⟩).log id := by
  rw [ackBatch_acked, List.mem_map] at h
  obtain ⟨p, hp, rfl⟩ := h
  refine ⟨p.2, List.mem_append_left _ ?_⟩
  rw [List.mem_reverse]
  exact List.mem_map.mpr ⟨p, hp, rfl⟩

omit [TaskCodec Body] in
/-- The answer `dead` is a dead-lettering. -/
theorem deadLettered_of_requeueOrDead [BodyCodec Body] {e : Engine Body} {now base cap : ℚ}
    {id leaseID : String}
    (h : (requeueOrDead now base cap id leaseID e.redis).2 = some .dead) :
    DeadLettered (e.exec ⟨now, .requeueOrDead id leaseID base cap⟩).log id := by
  show DeadLettered ((requeueEvents now base cap id leaseID e.redis).reverse ++ e.log) id
  unfold requeueOrDead at h
  unfold requeueEvents
  cases hg : requeueGuard now id leaseID e.redis with
  | some status =>
    rw [hg] at h
    exact absurd (Option.some.inj h) (requeueGuard_rejects hg).1
  | none =>
    rw [hg] at h
    simp only [h]
    split
    · exact .inl ⟨leaseID, List.mem_cons_self⟩
    · exact .inr ⟨_, List.mem_cons_self⟩

/-! ## Steps and runs -/

/-- **Step.** -/
theorem Journaled.step {w w' : World Body} {act : Act} (h : Journaled w)
    (hok : JournalOk w act) (hst : w.step act = some w') : Journaled w' := by
  cases World.moves hst with
  | routeStart hnew => exact h.routeStart hnew hok
  | @routeSet id c hc hpc =>
    refine (h.exec 0 (.routeBody c.args) trivial).setCall hc (fun _ => .inl ?_) nofun
    show (put w.engine.redis.task c.args.id _ id).isSome = true
    rw [(h.calls id c hc).args, put_self]
    rfl
  | @routePush id c hc hpc =>
    have hid := (h.calls id c hc).args
    have hop : OpOk w.engine.redis w.engine.log (.routePush c.args c.clock) := by
      show HasBody w.engine.redis w.engine.log c.args.id
      rw [hid]
      exact (h.calls id c hc).body hpc
    refine (h.exec 0 _ hop).setCall hc nofun (fun _ => .inl ?_)
    exact (routePush_live _ _ _).mpr (.inl hid.symm)
  | routeDone hc hpc => exact (h.materialized _).setCall hc nofun nofun
  | routeCrash hc hpc => exact h.setCall hc nofun nofun
  | claim hi =>
    refine (h.exec _ (.claimBatch _ _) trivial).setAgent ?_
    split <;> trivial
  | skip hi => exact h.setAgent trivial
  | process hi hb ht =>
    refine (h.update (keeps_setState _ _ _) _ fun row _ hr => ?_).setAgent trivial
    exact hr.setState _ _ nofun nofun
  | handlerOk hi => exact h.setAgent trivial
  | handlerFail hi =>
    refine (h.exec _ (.requeueOrDead _ _ _ _) trivial).setAgent ?_
    exact .afterRequeue deadLettered_of_requeueOrDead _ _
  | recover hi =>
    refine (h.exec _ (.requeueOrDead _ _ _ _) trivial).setAgent ?_
    exact .afterRequeue deadLettered_of_requeueOrDead _ _
  | noReport hi hb => exact h.setAgent trivial
  | @readReport i id dead _ _ _ hi hb =>
    have hpc := h.agents i
    rw [hi] at hpc
    exact h.setAgent hpc
  | @writeReport i id dead attempts _ _ due hi =>
    have hpc := h.agents i
    rw [hi] at hpc
    refine Journaled.setAgent ?_ trivial
    cases dead with
    | true =>
      refine h.update (keeps_setState _ _ _) id fun row hid hr => ?_
      exact hr.setState _ _ nofun (fun _ => hid ▸ hpc rfl)
    | false =>
      refine h.update (keeps_setState _ _ _) id fun row _ hr => ?_
      exact hr.setState _ _ nofun nofun
  | noAck hi => exact h.setAgent trivial
  | ack hi =>
    refine (h.exec _ (.ackBatch _) trivial).setAgent ?_
    exact fun id hid => acked_of_ackBatch hid
  | allSucceeded hi => exact h.setAgent trivial
  | @succeeded i id ids hi =>
    have hpc := h.agents i
    rw [hi] at hpc
    refine Journaled.setAgent ?_ (fun x hx => hpc x (List.mem_cons_of_mem _ hx))
    refine h.update (keeps_setState _ _ _) id fun row hid hr => ?_
    exact hr.setState _ _ (fun _ => hid ▸ hpc id List.mem_cons_self) nofun
  | agentCrash => exact h.setAgent trivial
  | heartbeat => exact h.exec _ (.heartbeat _ _ _) trivial
  | promote => exact h.exec _ (.promoteTask _) trivial
  | readPage hk =>
    refine h.setReconciler ⟨fun row hrow => (h.rows row (mem_active hrow).1).isSealed, ?_⟩
    intro hfull hnil
    rw [hnil] at hfull
    exact nomatch of_decide_eq_true hfull
  | @materializeRow k next row rest full clock hk =>
    have hpc := h.reconcilers k
    rw [hk] at hpc
    have hrow := hpc.1 row List.mem_cons_self
    refine (h.exec _ (.materialize _ _ _) hrow.body).setReconciler ?_
    exact ⟨hrow, fun r hr => hpc.1 r (List.mem_cons_of_mem _ hr)⟩
  | @clearRow k row rest full hk =>
    have hpc := h.reconcilers k
    rw [hk] at hpc
    exact (h.materialized _).setReconciler ⟨hpc.2, fun _ _ => hpc.1.after⟩
  | finishPage hk => exact h.setReconciler trivial
  | reconcilerCrash => exact h.setReconciler trivial
  | wipe => exact h.wipe hok

/-- **Run.** -/
theorem Journaled.run {w w' : World Body} {acts : List Act} (h : Journaled w)
    (hrun : WorldRun JournalOk w acts w') : Journaled w' :=
  hrun.invariant Journaled (fun _ _ _ hok hst hi => hi.step hok hst) h

end ForgeQueue
