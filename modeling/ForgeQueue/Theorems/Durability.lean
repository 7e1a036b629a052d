import ForgeQueue.Logic.Journaled
import ForgeQueue.Model.JsonBody

/-!
# Durability across wipes

A reconciler walks the journal from the zero cursor to its end, page after page, while
every other process goes on. `Covered` is the walk's invariant: a task whose `RouteTask`
returned is in Redis or finished, or its row is still ahead of the reconciler. Rows do
not move, so a row that is ahead stays ahead until its turn; what the reconciler has
passed is in Redis; and only a wipe could take it out again. At the end of the walk
nothing is ahead.
-/

namespace ForgeQueue

open Base

section Walk

variable {Body : Type}

/-- `RouteTask` returned nil for the task. -/
def World.Returned (w : World Body) (id : String) : Prop :=
  ∃ c, w.calls id = some c ∧ c.pc = .returned

/-- The row of this key is still to come in the walk. -/
def Ahead : ReconcilerPc Body → Key → Prop
  | .idle cursor, κ => cursor < κ
  | .sweeping next rest full, κ =>
    κ ∈ rest.map Row.key ∨ full = true ∧ lastKey next rest < κ
  | .clearing row rest full, κ =>
    κ ∈ rest.map Row.key ∨ full = true ∧ lastKey row.key rest < κ

variable [BodyCodec Body]

/-- Every returned task is in Redis or finished, or has a row of which `P` holds. -/
def Covered (P : Key → Prop) (w : World Body) : Prop :=
  ∀ κ ∈ w.journal.map Row.key, w.Returned κ.id →
    Kept w.engine.redis w.engine.log κ.id ∨ P κ

/-- A full walk of reconciler `k`: from the zero cursor until it wraps around, without a
wipe and without a crash of this reconciler. Everything else goes on meanwhile. -/
structure FullWalk (k : ℕ) (w : World Body) (acts : List Act) (w' : World Body) : Prop where
  run : WorldRun JournalOk w acts w'
  starts : w.reconcilers k = .idle zeroCursor
  reads : .readPage k ∈ acts
  ends : w'.reconcilers k = .idle zeroCursor
  noWipe : .wipe ∉ acts
  noCrash : .reconcilerCrash k ∉ acts

end Walk

variable {Body : Type} [TaskCodec Body]

/-! ## Everybody else -/

/-- A step other than a wipe sends a command that brings along what it needs. -/
theorem Journaled.opOk {w : World Body} {act : Act} {op : Op Body} (h : Journaled w)
    (hne : act ≠ .wipe) (hiss : Issues w act op) : OpOk w.engine.redis w.engine.log op := by
  cases act with
  | routeSet id => obtain ⟨c, -, -, rfl⟩ := hiss; trivial
  | routePush id =>
    obtain ⟨c, hc, hpc, rfl⟩ := hiss
    show HasBody w.engine.redis w.engine.log c.args.id
    rw [(h.calls id c hc).args]
    exact (h.calls id c hc).body hpc
  | claim i leaseIDs expiry => obtain rfl := hiss; trivial
  | handlerFail i now base cap => obtain ⟨t, l, rfl⟩ := hiss; trivial
  | recover i taskID now base cap => obtain rfl := hiss; trivial
  | ack i => obtain ⟨acks, rfl⟩ := hiss; trivial
  | heartbeat taskID leaseID now d => obtain rfl := hiss; trivial
  | promote taskID now => obtain rfl := hiss; trivial
  | materializeRow k clock =>
    obtain ⟨next, row, rest, full, hk, rfl⟩ := hiss
    have hpc := h.reconcilers k
    rw [hk] at hpc
    exact (hpc.1 row List.mem_cons_self).body
  | wipe => exact absurd rfl hne
  | _ => exact hiss.elim

theorem Journaled.kept_step {w w' : World Body} {act : Act} (h : Journaled w)
    (hne : act ≠ .wipe) (hst : w.step act = some w') {x : String}
    (hk : Kept w.engine.redis w.engine.log x) : Kept w'.engine.redis w'.engine.log x := by
  rcases World.engine_step hst with heq | ⟨now, op, hiss, heq⟩
  · rw [heq]; exact hk
  · rw [heq]; exact hk.exec h.sound (h.opOk hne hiss)

/-- Rows keep their keys; a new row belongs to a call that has not returned. -/
theorem Journaled.keys_step {w w' : World Body} {act : Act} (h : Journaled w)
    (hst : w.step act = some w') {κ : Key} (hκ : κ ∈ w'.journal.map Row.key)
    (hret : w'.Returned κ.id) : κ ∈ w.journal.map Row.key := by
  have update : ∀ {f : Row Body → Row Body} {id : String}, Keeps f →
      w'.journal = journalUpdate id f w.journal → κ ∈ w.journal.map Row.key := by
    intro f id hf heq
    rw [heq, journalUpdate_keys hf] at hκ
    exact hκ
  cases World.moves hst with
  | @routeStart a clock pgNow hnew =>
    change κ ∈ (journalEnqueue pgNow (routeRow clock a) w.journal).map Row.key at hκ
    rw [journalEnqueue_fresh _ _ _ (h.fresh hnew), List.map_append, List.mem_append] at hκ
    refine hκ.resolve_right (fun hlast => ?_)
    obtain ⟨c, hc, hpc⟩ := hret
    rw [List.map_singleton, List.mem_singleton] at hlast
    subst hlast
    change put w.calls a.id _ a.id = some c at hc
    rw [put_self] at hc
    obtain rfl := Option.some.inj hc
    cases hpc
  | routeDone _ _ => exact update keeps_materialized rfl
  | process _ _ _ => exact update (keeps_setState _ _ _) rfl
  | @writeReport _ id dead attempts _ _ due _ =>
    cases dead with
    | true => exact update (keeps_setState .dead attempts none) rfl
    | false => exact update (keeps_setState .retrying attempts (some due)) rfl
  | succeeded _ => exact update (keeps_setState _ _ _) rfl
  | clearRow _ => exact update keeps_materialized rfl
  | _ => exact hκ

/-- A call that returns leaves its task in Redis. -/
theorem Journaled.returned_step {w w' : World Body} {act : Act} (h : Journaled w)
    (hst : w.step act = some w') {id : String} (hret : w'.Returned id) :
    w.Returned id ∨ Kept w'.engine.redis w'.engine.log id := by
  obtain ⟨c', hc', hpc'⟩ := hret
  -- the move of one call to another program counter
  have moved : ∀ {c : RouteCall} {pc : RoutePc}, w'.calls = put w.calls c.args.id { c with pc } →
      pc ≠ .returned → w.Returned id := by
    intro c pc heq hpc
    rw [heq] at hc'
    rcases put_eq_some.mp hc' with ⟨-, rfl⟩ | ⟨-, hc'⟩
    · exact absurd hpc' hpc
    · exact ⟨c', hc', hpc'⟩
  cases World.moves hst with
  | @routeStart a clock _ _ =>
    rcases put_eq_some.mp hc' with ⟨-, rfl⟩ | ⟨-, hc'⟩
    · cases hpc'
    · exact .inl ⟨c', hc', hpc'⟩
  | routeSet _ _ => exact .inl (moved rfl nofun)
  | routePush _ _ => exact .inl (moved rfl nofun)
  | @routeDone x c hc hpc =>
    rcases put_eq_some.mp hc' with ⟨hid, -⟩ | ⟨-, hc'⟩
    · have hok := h.calls x c hc
      right
      show Kept w.engine.redis w.engine.log id
      rw [hid, hok.args]
      exact hok.kept hpc
    · exact .inl ⟨c', hc', hpc'⟩
  | routeCrash _ _ => exact .inl (moved rfl nofun)
  | _ => exact .inl ⟨c', hc', hpc'⟩

/-- **Step.** Whatever `P` says of the rows, no step but a wipe adds to it. -/
theorem Covered.step {P : Key → Prop} {w w' : World Body} {act : Act} (hc : Covered P w)
    (h : Journaled w) (hne : act ≠ .wipe) (hst : w.step act = some w') : Covered P w' := by
  intro κ hκ hret
  rcases h.returned_step hst hret with hold | hkept
  · exact (hc κ (h.keys_step hst hκ hret) hold).imp (h.kept_step hne hst) id
  · exact .inl hkept

/-! ## The walking reconciler -/

/-- A row that is ahead stays ahead or is brought into Redis, or its task is finished. -/
theorem Journaled.ahead_step {k : ℕ} {w w' : World Body} {act : Act} (h : Journaled w)
    (hcrash : act ≠ .reconcilerCrash k) (hst : w.step act = some w') {κ : Key}
    (hκ : κ ∈ w.journal.map Row.key) (ha : Ahead (w.reconcilers k) κ) :
    Kept w'.engine.redis w'.engine.log κ.id ∨ Ahead (w'.reconcilers k) κ := by
  -- reconcilers do not touch each other
  have other : ∀ {j : ℕ} {pc : ReconcilerPc Body},
      w'.reconcilers = Function.update w.reconcilers j pc → k ≠ j →
      Ahead (w'.reconcilers k) κ := by
    intro j pc heq hj
    rw [heq, Function.update_of_ne hj]
    exact ha
  have self : ∀ {pc : ReconcilerPc Body},
      w'.reconcilers = Function.update w.reconcilers k pc → w'.reconcilers k = pc := by
    intro pc heq
    rw [heq, Function.update_self]
  cases World.moves hst with
  | @readPage j cursor hj =>
    by_cases hjk : k = j
    swap
    · exact .inr (other rfl hjk)
    subst hjk
    rw [hj] at ha
    obtain ⟨row, hrow, rfl⟩ := List.mem_map.mp hκ
    cases ht : row.state.terminal with
    | true => exact .inl (.inr ((h.rows row hrow).finished ht))
    | false =>
      right
      rw [self rfl]
      have hpos : 0 < reconcilePageSize := by decide
      rcases active_covers h.ids hrow ht ha hpos with hin | ⟨hfull, hlast⟩
      · exact .inl (List.mem_map_of_mem hin)
      · exact .inr ⟨decide_eq_true hfull, hlast⟩
  | @materializeRow j next row rest full clock hj =>
    by_cases hjk : k = j
    swap
    · exact .inr (other rfl hjk)
    subst hjk
    rw [hj] at ha
    rw [self rfl]
    rcases ha with hin | hlast
    · rw [List.map_cons, List.mem_cons] at hin
      rcases hin with rfl | hin
      · left
        left
        show ((w.engine.exec ⟨0, .materialize row.id _ row.payload⟩).redis).Live row.id
        rcases exec_materialize w.engine 0 row.id (materializeScore clock row) row.payload with
          ⟨hlive, heq⟩ | ⟨-, heq⟩
        · rw [heq]; exact hlive
        · rw [heq]; exact (routePush_live _ _ _).mpr (.inl rfl)
      · exact .inr (.inl hin)
    · exact .inr (.inr hlast)
  | @clearRow j row rest full hj =>
    by_cases hjk : k = j
    swap
    · exact .inr (other rfl hjk)
    subst hjk
    rw [hj] at ha
    rw [self rfl]
    exact .inr ha
  | @finishPage j next full hj =>
    by_cases hjk : k = j
    swap
    · exact .inr (other rfl hjk)
    subst hjk
    rw [hj] at ha
    rw [self rfl]
    rcases ha with hin | ⟨rfl, hlast⟩
    · cases hin
    · exact .inr hlast
  | @reconcilerCrash j =>
    by_cases hjk : k = j
    · subst hjk
      exact absurd rfl hcrash
    · exact .inr (other rfl hjk)
  | _ => exact .inr ha

/-- The only step with which a reconciler returns to the zero cursor, crashes apart, ends
a page that was not full. -/
theorem Journaled.wraps {k : ℕ} {w w' : World Body} {act : Act} (h : Journaled w)
    (hcrash : act ≠ .reconcilerCrash k) (hst : w.step act = some w')
    (hne : w.reconcilers k ≠ .idle zeroCursor) (hend : w'.reconcilers k = .idle zeroCursor) :
    ∃ next, w.reconcilers k = .sweeping next [] false := by
  have other : ∀ {j : ℕ} {pc : ReconcilerPc Body},
      w'.reconcilers = Function.update w.reconcilers j pc → pc ≠ .idle zeroCursor → False := by
    intro j pc heq hpc
    rw [heq] at hend
    by_cases hj : k = j
    · rw [hj, Function.update_self] at hend
      exact hpc hend
    · rw [Function.update_of_ne hj] at hend
      exact hne hend
  cases World.moves hst with
  | readPage _ => exact (other rfl nofun).elim
  | materializeRow _ => exact (other rfl nofun).elim
  | clearRow _ => exact (other rfl nofun).elim
  | @finishPage j next full hj =>
    by_cases hjk : k = j
    · subst hjk
      have hok := h.reconcilers k
      rw [hj] at hok
      cases full with
      | false => exact ⟨next, hj⟩
      | true =>
        -- a full page ends at one of its rows, after the zero cursor
        refine (other rfl ?_).elim
        intro hz
        have hnext : next = zeroCursor := by simpa using hz
        exact absurd (hok.2 rfl rfl) (by rw [hnext]; exact lt_irrefl _)
    · change Function.update w.reconcilers j _ k = _ at hend
      rw [Function.update_of_ne hjk] at hend
      exact absurd hend hne
  | @reconcilerCrash j =>
    by_cases hjk : k = j
    · subst hjk
      exact absurd rfl hcrash
    · change Function.update w.reconcilers j _ k = _ at hend
      rw [Function.update_of_ne hjk] at hend
      exact absurd hend hne
  | _ => exact absurd hend hne

/-- The walk is under way, or has reached the end. -/
def Walking (k : ℕ) (w : World Body) : Prop :=
  (Covered (Ahead (w.reconcilers k)) w ∧ w.reconcilers k ≠ .idle zeroCursor) ∨
    Covered (fun _ => False) w

/-- The first page is read: every row is ahead. -/
theorem Journaled.walking_start {k : ℕ} {w w' : World Body} (h : Journaled w)
    (hstart : w.reconcilers k = .idle zeroCursor) (hst : w.step (.readPage k) = some w') :
    Walking k w' := by
  have hall : Covered (Ahead (w.reconcilers k)) w := by
    intro κ hκ _
    obtain ⟨row, hrow, rfl⟩ := List.mem_map.mp hκ
    rw [hstart]
    exact .inr (h.rows row hrow).isSealed.after
  have hwipe : Act.readPage k ≠ .wipe := nofun
  have hcrash : Act.readPage k ≠ .reconcilerCrash k := nofun
  refine .inl ⟨?_, ?_⟩
  · intro κ hκ hret
    have hold := h.keys_step hst hκ hret
    rcases hall.step h hwipe hst κ hκ hret with hk | ha
    · exact .inl hk
    · exact h.ahead_step hcrash hst hold ha
  · cases World.moves hst with
    | readPage _ =>
      show Function.update w.reconcilers k _ k ≠ _
      rw [Function.update_self]
      exact nofun

/-- **Step.** -/
theorem Walking.step {k : ℕ} {w w' : World Body} {act : Act} (hw : Walking k w)
    (h : Journaled w) (hne : act ≠ .wipe) (hcrash : act ≠ .reconcilerCrash k)
    (hst : w.step act = some w') : Walking k w' := by
  rcases hw with ⟨hcov, hidle⟩ | hdone
  swap
  · exact .inr (hdone.step h hne hst)
  by_cases hend : w'.reconcilers k = .idle zeroCursor
  · -- the last page is done: nothing was ahead
    obtain ⟨next, hlast⟩ := h.wraps hcrash hst hidle hend
    right
    have hdone : Covered (fun _ => False) w := by
      intro κ hκ hret
      refine (hcov κ hκ hret).imp id (fun ha => ?_)
      rw [hlast] at ha
      rcases ha with hin | ⟨hfull, -⟩
      · cases hin
      · cases hfull
    exact hdone.step h hne hst
  · refine .inl ⟨?_, hend⟩
    intro κ hκ hret
    have hold := h.keys_step hst hκ hret
    rcases hcov.step h hne hst κ hκ hret with hk | ha
    · exact .inl hk
    · exact h.ahead_step hcrash hst hold ha

/-- **Run.** -/
theorem Walking.run {k : ℕ} {w w' : World Body} {acts : List Act} (hw : Walking k w)
    (h : Journaled w) (hrun : WorldRun JournalOk w acts w') (hne : .wipe ∉ acts)
    (hcrash : .reconcilerCrash k ∉ acts) : Walking k w' := by
  induction hrun with
  | nil => exact hw
  | @cons w act w₁ acts w' hok hst _ ih =>
    rw [List.mem_cons, not_or] at hne hcrash
    exact ih (hw.step h (Ne.symm hne.1) (Ne.symm hcrash.1) hst) (h.step hok hst) hne.2 hcrash.2

omit [TaskCodec Body] in
/-- A reconciler that waits at a cursor stays there until it reads a page. -/
theorem waits [BodyCodec Body] {ok : World Body → Act → Prop} {k : ℕ} {cursor : Key}
    {w w' : World Body} {acts : List Act} (hrun : WorldRun ok w acts w')
    (hidle : w.reconcilers k = .idle cursor) (hread : .readPage k ∉ acts)
    (hcrash : .reconcilerCrash k ∉ acts) : w'.reconcilers k = .idle cursor := by
  induction hrun with
  | nil => exact hidle
  | @cons w act w₁ acts w' _ hst _ ih =>
    rw [List.mem_cons, not_or] at hread hcrash
    refine ih ?_ hread.2 hcrash.2
    have other : ∀ {j : ℕ} {pc : ReconcilerPc Body}, k ≠ j →
        Function.update w.reconcilers j pc k = .idle cursor := by
      intro j pc hj
      rw [Function.update_of_ne hj]
      exact hidle
    cases World.moves hst with
    | readPage _ => exact other (fun hj => hread.1 (hj ▸ rfl))
    | materializeRow hj => exact other (fun he => by rw [← he, hidle] at hj; cases hj)
    | clearRow hj => exact other (fun he => by rw [← he, hidle] at hj; cases hj)
    | finishPage hj => exact other (fun he => by rw [← he, hidle] at hj; cases hj)
    | reconcilerCrash => exact other (fun hj => hcrash.1 (hj ▸ rfl))
    | _ => exact hidle

/-- **Durability.** After any history of gateway calls, workers, recoveries, promotions,
reconcilers, crashes and wipes, a full reconciler walk restores the queue: every task
whose `RouteTask` returned nil and that was neither acknowledged nor dead-lettered is
in Redis at the end of the walk, with its body. -/
theorem full_walk_restores_queue {k : ℕ} {past acts : List Act} {w w' : World Body}
    (hpast : WorldRun JournalOk World.init past w) (hwalk : FullWalk k w acts w') {id : String}
    (hret : w'.Returned id) (hack : ¬ Acked w'.engine.log id)
    (hdead : ¬ DeadLettered w'.engine.log id) :
    w'.engine.redis.Live id ∧ (w'.engine.redis.task id).isSome := by
  have hj := Journaled.init.run hpast
  have hj' := hj.run hwalk.run
  obtain ⟨before, after, rfl, hfirst⟩ := List.eq_append_cons_of_mem hwalk.reads
  have hnw := hwalk.noWipe
  have hnc := hwalk.noCrash
  rw [List.mem_append, not_or, List.mem_cons, not_or] at hnw hnc
  -- the reconciler waits, reads its first page, and walks
  obtain ⟨w₁, hrun₁, hrest⟩ := hwalk.run.split
  have hwait := waits hrun₁ hwalk.starts hfirst hnc.1
  have hj₁ := hj.run hrun₁
  cases hrest with
  | cons hok hst hrun₂ =>
    have hwalking := (hj₁.walking_start hwait hst).run (hj₁.step hok hst) hrun₂ hnw.2.2 hnc.2.2
    have hdone : Covered (fun _ => False) w' := by
      rcases hwalking with ⟨-, hne⟩ | hdone
      · exact absurd hwalk.ends hne
      · exact hdone
    obtain ⟨c, hc, hpc⟩ := hret
    have hrow : id ∈ (w'.journal.map Row.key).map Key.id := by
      rw [← map_id_eq]
      exact (hj'.calls id c hc).row
    obtain ⟨κ, hκ, rfl⟩ := List.mem_map.mp hrow
    have hkept := (hdone κ hκ ⟨c, hc, hpc⟩).resolve_right id
    have hlive := hkept.resolve_right (fun hfin => hfin.elim hack hdead)
    exact ⟨hlive, (hj'.sound.bodies _ hlive).resolve_right hack⟩

/-- One enqueue, then Redis loses everything. -/
def wipedRun : List Act :=
  [.routeStart sampleArgs 100 100, .routeSet "job", .routePush "job", .routeDone "job", .wipe]

/-- A walk over the one row. -/
def walkRun : List Act := [.readPage 0, .materializeRow 0 200, .clearRow 0, .finishPage 0]

/-- The job is back after the wipe. -/
theorem full_walk_restores_queue_after_wipe :
    ∃ w w' : World JsonBody, WorldRun JournalOk World.init wipedRun w ∧
      ¬ w.engine.redis.Live "job" ∧ FullWalk 0 w walkRun w' ∧ w'.Returned "job" ∧
      w'.engine.redis.Live "job" ∧ (w'.engine.redis.task "job").isSome := by
  have hclock : (ofLex zeroCursor).1 < (100 : ℚ) := by
    show (-62135596800 : ℚ) < 100
    decide +kernel
  have hpast : ∃ w : World JsonBody, WorldRun JournalOk World.init wipedRun w ∧
      ¬ w.engine.redis.Live "job" ∧ ∃ w', FullWalk 0 w walkRun w' ∧ w'.Returned "job" ∧
        w'.engine.log =
          [.materialized "job", .wiped, .enqueued sampleArgs, .bodySet sampleArgs] := by
    refine ⟨_, .cons hclock rfl (.cons trivial rfl (.cons trivial rfl (.cons trivial rfl
      (.cons ?_ rfl .nil)))), by decide, _, ⟨.cons trivial rfl (.cons trivial rfl
      (.cons trivial rfl (.cons trivial rfl .nil))), rfl, by decide, rfl, by decide,
      by decide⟩, ⟨_, rfl, rfl⟩, rfl⟩
    -- the only call has returned
    intro id c hc hprog
    by_cases hid : id = "job"
    · subst hid
      cases hc
      exact hprog.1 rfl
    · change put (put (put (put nothing "job" _) "job" _) "job" _) "job" _ id = some c at hc
      rw [put_of_ne _ _ hid, put_of_ne _ _ hid, put_of_ne _ _ hid, put_of_ne _ _ hid] at hc
      cases hc
  obtain ⟨w, hrun, hgone, w', hwalk, hret, hlog⟩ := hpast
  have hack : ¬ Acked w'.engine.log "job" := by
    rw [hlog]
    rintro ⟨l, hl⟩
    simp at hl
  have hdead : ¬ DeadLettered w'.engine.log "job" := by
    rw [hlog]
    rintro (⟨l, hl⟩ | ⟨l, hl⟩)
    · simp at hl
    · simp at hl
  exact ⟨w, w', hrun, hgone, hwalk, hret, full_walk_restores_queue hrun hwalk hret hack hdead⟩

end ForgeQueue
