import ForgeQueue.Model.Engine

/-!
# What the scripts leave alone, and what they do to a task document

One frame lemma per script half, one specification of the retry decision on a
body that is a task document, and the frame lemma of a whole `Effect`: an event
about one task moves no entry of another.
-/

namespace ForgeQueue

open Base

section Frame

variable {Body : Type} [BodyCodec Body]

/-- What the second half of `requeueOrDead` does not touch. -/
structure RetryFrame (id : String) (r r' : Redis Body) : Prop where
  immediate : r'.immediate = r.immediate
  inflight : r'.inflight = r.inflight
  leases : r'.leases = r.leases
  paused : r'.paused = r.paused
  scheduled : ∀ x, x ≠ id → r'.scheduled x = r.scheduled x
  task : ∀ x, x ≠ id → r'.task x = r.task x
  taskSome : (r.task id).isSome → (r'.task id).isSome
  dead : r'.dead = r.dead ∨ ∃ b, r'.dead = b :: r.dead

theorem retryOrBury_frame (now base cap : ℚ) (id : String) (r : Redis Body) :
    RetryFrame id r (retryOrBury now base cap id r).1 := by
  unfold retryOrBury
  -- one goal per exit of the script, in the order of its statements
  split
  · exact ⟨rfl, rfl, rfl, rfl, fun _ _ => rfl, fun _ _ => rfl, fun h => h, .inl rfl⟩
  rename_i body _
  split
  · exact ⟨rfl, rfl, rfl, rfl, fun _ _ => rfl, fun _ _ => rfl, fun h => h, .inr ⟨body, rfl⟩⟩
  split
  · exact ⟨rfl, rfl, rfl, rfl, fun _ _ => rfl, fun _ _ => rfl, fun h => h, .inr ⟨body, rfl⟩⟩
  split
  · exact ⟨rfl, rfl, rfl, rfl, fun _ _ => rfl, fun _ _ => rfl, fun h => h, .inl rfl⟩
  dsimp only
  split
  · exact ⟨rfl, rfl, rfl, rfl, fun _ _ => rfl, fun _ _ => rfl, fun h => h, .inl rfl⟩
  rename_i newBody _
  split
  · exact ⟨rfl, rfl, rfl, rfl, fun _ _ => rfl, fun x hx => put_of_ne _ _ hx,
      fun _ => by simp, .inl rfl⟩
  split
  · exact ⟨rfl, rfl, rfl, rfl, fun _ _ => rfl, fun x hx => put_of_ne _ _ hx,
      fun _ => by simp, .inr ⟨newBody, rfl⟩⟩
  · exact ⟨rfl, rfl, rfl, rfl, fun x hx => put_of_ne _ _ hx, fun x hx => put_of_ne _ _ hx,
      fun _ => by simp, .inl rfl⟩

/-- The task is scheduled anew or its entry is left as it was. -/
theorem retryOrBury_scheduled (now base cap : ℚ) (id : String) (r : Redis Body) :
    (retryOrBury now base cap id r).1.scheduled = r.scheduled ∨
      ∃ s, (retryOrBury now base cap id r).1.scheduled = put r.scheduled id s := by
  unfold retryOrBury
  split
  · exact .inl rfl
  split
  · exact .inl rfl
  split
  · exact .inl rfl
  split
  · exact .inl rfl
  dsimp only
  split
  · exact .inl rfl
  split
  · exact .inl rfl
  split
  · exact .inl rfl
  · exact .inr ⟨_, rfl⟩

omit [BodyCodec Body] in
/-- A claim leaves the bodies alone. -/
theorem claimLoop_task (expiry : ℚ) (leaseIDs : List String) :
    ∀ r : Redis Body, (claimLoop expiry leaseIDs r).1.task = r.task := by
  induction leaseIDs with
  | nil => intro r; rfl
  | cons leaseID rest ih =>
    intro r
    unfold claimLoop
    split
    · rfl
    · exact ih _

omit [BodyCodec Body] in
/-- A returned claim pairs a popped id with its token. -/
theorem claimBatch_mem {leaseIDs : List String} {expiry : ℚ} {r : Redis Body}
    {k : TaskClaim Body} (hk : k ∈ (claimBatch leaseIDs expiry r).2) :
    (claimBatch leaseIDs expiry r).1 = (claimLoop expiry leaseIDs r).1 ∧
      (k.taskID, k.leaseID) ∈ (claimLoop expiry leaseIDs r).2.zip leaseIDs := by
  unfold claimBatch at hk ⊢
  by_cases hp : r.paused
  · rw [if_pos hp] at hk
    cases hk
  · rw [if_neg hp] at hk ⊢
    refine ⟨rfl, ?_⟩
    dsimp only at hk
    rw [← List.map_uncurry_zip_eq_zipWith] at hk
    obtain ⟨p, hmem, rfl⟩ := List.mem_map.mp hk
    exact hmem

omit [BodyCodec Body] in
/-- It comes with the body stored under the id. -/
theorem claimBatch_body {leaseIDs : List String} {expiry : ℚ} {r : Redis Body}
    {k : TaskClaim Body} (hk : k ∈ (claimBatch leaseIDs expiry r).2) :
    k.body = r.task k.taskID := by
  unfold claimBatch at hk
  split at hk
  · cases hk
  · dsimp only at hk
    rw [claimLoop_task, ← List.map_uncurry_zip_eq_zipWith] at hk
    obtain ⟨p, -, rfl⟩ := List.mem_map.mp hk
    rfl

omit [BodyCodec Body] in
/-- An acknowledgement deletes bodies and writes none. -/
theorem ackBatch_task (t : String) (pairs : List (String × String)) :
    ∀ r : Redis Body, (ackBatch pairs r).1.task t = r.task t ∨
      (ackBatch pairs r).1.task t = none := by
  induction pairs with
  | nil => intro r; exact .inl rfl
  | cons p rest ih =>
    intro r
    obtain ⟨t', l'⟩ := p
    unfold ackBatch
    by_cases hc : r.leases t' = some l'
    · rw [if_pos hc]
      by_cases ht : t = t'
      · -- the body is gone, and no later pair brings it back
        refine .inr ((ih _).elim (fun h => h.trans ?_) id)
        rw [ht]
        exact del_self _ _
      · refine (ih _).imp (fun h => h.trans ?_) id
        exact del_of_ne _ ht
    · rw [if_neg hc]
      exact ih r

/-! ## The frame of an effect -/

/-- The task an event is about. -/
def Event.subject : Event → Option String
  | .bodySet a | .enqueued a => some a.id
  | .claimed t _ _ | .beat t _ _ | .acked t _ | .failed t _ _ | .reclaimed t _ _ => some t
  | .promoted t | .materialized t | .requeued t | .deleted t => some t
  | .paused _ | .wiped => none

/-- The entries of task `id`, dead list apart, are the same in both states. -/
structure SameAt (id : String) (r r' : Redis Body) : Prop where
  immediate : r'.immediate.count id = r.immediate.count id
  inflight : r'.inflight id = r.inflight id
  leases : r'.leases id = r.leases id
  scheduled : r'.scheduled id = r.scheduled id
  task : r'.task id = r.task id

omit [BodyCodec Body] in
theorem routePush_sameAt {id x : String} (h : x ≠ id) (target : Option ℚ) (r : Redis Body) :
    SameAt x r (routePush target id r) := by
  cases target with
  | none => exact ⟨List.count_cons_of_ne h.symm, rfl, rfl, rfl, rfl⟩
  | some score => exact ⟨rfl, rfl, rfl, put_of_ne _ _ h, rfl⟩

/-- **Frame.** An event about one task moves no entry of another. -/
theorem Effect.sameAt {r r' : Redis Body} {ev : Event} {x : String} (h : Effect r ev r')
    (hne : ev.subject ≠ some x) (hw : ev ≠ .wiped) : SameAt x r r' := by
  have hx : ∀ {t}, ev.subject = some t → x ≠ t := fun ht he => hne (he ▸ ht)
  cases h with
  | bodySet a => exact ⟨rfl, rfl, rfl, rfl, put_of_ne _ _ (hx rfl)⟩
  | enqueued a clock => exact routePush_sameAt (hx rfl) _ r
  | paused on => exact ⟨rfl, rfl, rfl, rfl, rfl⟩
  | claimed t ready l e _ hr =>
    refine ⟨?_, put_of_ne _ _ (hx rfl), put_of_ne _ _ (hx rfl), rfl, rfl⟩
    rw [hr]
    exact (List.count_cons_of_ne (hx rfl).symm).symm
  | beat t l e _ => exact ⟨rfl, put_of_ne _ _ (hx rfl), rfl, rfl, rfl⟩
  | acked t l _ =>
    exact ⟨rfl, del_of_ne _ (hx rfl), del_of_ne _ (hx rfl), rfl, del_of_ne _ (hx rfl)⟩
  | failed t l now base cap _ _ =>
    have hf := retryOrBury_frame now base cap t (r.release t)
    refine ⟨by rw [hf.immediate]; rfl, ?_, ?_, hf.scheduled x (hx rfl), hf.task x (hx rfl)⟩
    · rw [hf.inflight]; exact del_of_ne _ (hx rfl)
    · rw [hf.leases]; exact del_of_ne _ (hx rfl)
  | reclaimed t e now base cap _ _ =>
    have hf := retryOrBury_frame now base cap t (r.release t)
    refine ⟨by rw [hf.immediate]; rfl, ?_, ?_, hf.scheduled x (hx rfl), hf.task x (hx rfl)⟩
    · rw [hf.inflight]; exact del_of_ne _ (hx rfl)
    · rw [hf.leases]; exact del_of_ne _ (hx rfl)
  | promoted t score now _ _ =>
    exact ⟨List.count_cons_of_ne (hx rfl).symm, rfl, rfl, del_of_ne _ (hx rfl), rfl⟩
  | materialized t target payload _ =>
    have hp := routePush_sameAt (hx rfl) target { r with task := put r.task t payload }
    exact ⟨hp.immediate, hp.inflight, hp.leases, hp.scheduled,
      hp.task.trans (put_of_ne _ _ (hx rfl))⟩
  | requeued t =>
    exact ⟨List.count_cons_of_ne (hx rfl).symm, del_of_ne _ (hx rfl), del_of_ne _ (hx rfl),
      del_of_ne _ (hx rfl), rfl⟩
  | deleted t =>
    refine ⟨?_, del_of_ne _ (hx rfl), del_of_ne _ (hx rfl), del_of_ne _ (hx rfl),
      del_of_ne _ (hx rfl)⟩
    exact List.count_filter (by simpa using hx rfl)
  | wiped => exact absurd rfl hw

omit [BodyCodec Body] in
/-- `SameAt` keeps liveness. -/
theorem SameAt.live {x : String} {r r' : Redis Body} (h : SameAt x r r') :
    r'.Live x ↔ r.Live x := by
  unfold Redis.Live
  rw [← List.count_pos_iff, ← List.count_pos_iff, h.immediate, h.inflight, h.scheduled]

/-! ## Inflight and leases -/

/-- The inflight set and the lease hash have the same ids. -/
def Coupled (r : Redis Body) : Prop :=
  ∀ t, (r.inflight t).isSome = (r.leases t).isSome

omit [BodyCodec Body] in
theorem Coupled.empty : Coupled (Redis.empty : Redis Body) := fun _ => rfl

omit [BodyCodec Body] in
theorem Coupled.of_eq {r r' : Redis Body} (h : Coupled r) (hi : r'.inflight = r.inflight)
    (hl : r'.leases = r.leases) : Coupled r' := by
  intro t
  rw [hi, hl]
  exact h t

omit [BodyCodec Body] in
theorem Coupled.of_del {r r' : Redis Body} {id : String} (h : Coupled r)
    (hi : r'.inflight = del r.inflight id) (hl : r'.leases = del r.leases id) : Coupled r' := by
  intro t
  rw [hi, hl]
  exact del_isSome_congr h id t

/-- **Step.** Every effect keeps the two in step. -/
theorem Coupled.effect {r r' : Redis Body} {ev : Event} (h : Coupled r)
    (heff : Effect r ev r') : Coupled r' := by
  cases heff with
  | bodySet a => exact h.of_eq rfl rfl
  | enqueued a clock =>
    unfold routePush
    split <;> exact h.of_eq rfl rfl
  | paused on => exact h.of_eq rfl rfl
  | claimed t₀ ready l e _ _ =>
    intro t
    show (put r.inflight t₀ e t).isSome = (put r.leases t₀ l t).isSome
    by_cases ht : t = t₀
    · rw [ht, put_self, put_self]; rfl
    · rw [put_of_ne _ _ ht, put_of_ne _ _ ht]; exact h t
  | beat t₀ l e hl =>
    intro t
    show (put r.inflight t₀ e t).isSome = (r.leases t).isSome
    by_cases ht : t = t₀
    · rw [ht, put_self, hl]; rfl
    · rw [put_of_ne _ _ ht]; exact h t
  | acked t l _ => exact h.of_del rfl rfl
  | failed t l now base cap _ _ =>
    have hf := retryOrBury_frame now base cap t (r.release t)
    exact h.of_del hf.inflight hf.leases
  | reclaimed t e now base cap _ _ =>
    have hf := retryOrBury_frame now base cap t (r.release t)
    exact h.of_del hf.inflight hf.leases
  | promoted t score now _ _ => exact h.of_eq rfl rfl
  | materialized t target payload _ =>
    unfold routePush
    split <;> exact h.of_eq rfl rfl
  | requeued t => exact h.of_del rfl rfl
  | deleted t => exact h.of_del rfl rfl
  | wiped => exact .empty

omit [BodyCodec Body] in
/-- A current lease is in flight. -/
theorem Coupled.inflight {r : Redis Body} {t l : String} (h : Coupled r)
    (hl : r.leases t = some l) : (r.inflight t).isSome = true := by
  rw [h t, hl]
  rfl

omit [BodyCodec Body] in
/-- A call the guard rejects is neither a dead-lettering nor a retry. -/
theorem requeueGuard_rejects {r : Redis Body} {now : ℚ} {id leaseID : String}
    {status : RequeueStatus} (h : requeueGuard now id leaseID r = some status) :
    status ≠ .dead ∧ status ≠ .scheduled := by
  unfold requeueGuard at h
  split at h
  · split at h
    · cases h
    · cases h
      exact ⟨nofun, nofun⟩
  · split at h
    · cases h
      exact ⟨nofun, nofun⟩
    · split at h
      · cases h
        exact ⟨nofun, nofun⟩
      · cases h

end Frame

/-! ## The retry decision on a task document -/

/-- The record after one more failed attempt. -/
def TaskMetaData.bump (t : ModelTask) : ModelTask := { t with attempts := t.attempts + 1 }

/-- The failed attempt uses up the budget. -/
def TaskMetaData.Exhausted (t : ModelTask) : Prop :=
  0 < t.maxRetries ∧ t.maxRetries ≤ t.attempts + 1

instance (t : ModelTask) : Decidable t.Exhausted := inferInstanceAs (Decidable (_ ∧ _))

theorem inInt32_toInt (m : Int32) : inInt32 m.toInt :=
  ⟨m.le_toInt, m.toInt_lt⟩

theorem routeData_fits (a : RouteArgs) : (routeData a).Fits := by
  refine ⟨inInt32_toInt a.maxRetries, ?_⟩
  show inInt32 0
  decide

variable {Body : Type} [TaskCodec Body]

/-- On a task document the script never raises: the body is rewritten with the
counter bumped, and the task is dead-lettered exactly when that attempt exhausts
a positive budget. -/
theorem retryOrBury_doc (now base cap : ℚ) (id : String) (r : Redis Body) {b : Body}
    {t : ModelTask} (hb : r.task id = some b) (hdoc : IsDoc b t) :
    ∃ b', IsDoc b' t.bump ∧
      retryOrBury now base cap id r =
        if t.Exhausted then
          ({ r with task := put r.task id b', dead := b' :: r.dead }, some .dead)
        else
          ({ r with
              task := put r.task id b'
              scheduled := put r.scheduled id
                (now + scriptBackoff (t.attempts + 1 : ℤ) base cap) }, some .scheduled) := by
  obtain ⟨b', henc, hdoc'⟩ :
      ∃ b' : Body, cjsonEncode (taskTable t.bump) = some b' ∧ IsDoc b' t.bump :=
    TaskCodec.cjsonEncode_isDoc t.bump
  refine ⟨b', hdoc', ?_⟩
  have hset : (taskTable t).setField "attempts" (.num ((t.attempts : ℚ) + 1))
      = taskTable t.bump := by
    have hcast : (t.attempts : ℚ) + 1 = ((t.attempts + 1 : ℤ) : ℚ) := by push_cast; rfl
    rw [hcast, taskTable_setAttempts]
    rfl
  unfold retryOrBury
  rw [hb]
  simp only [hdoc.lua, taskTable_isTable, taskTable_attempts, luaArith, hset, henc,
    Bool.true_eq_false, if_false]
  have hmax : (taskTable t.bump).field "max_retries" = some (.num t.maxRetries) :=
    taskTable_maxRetries t.bump
  have hexh : ((0 : ℚ) < t.maxRetries ∧ (t.maxRetries : ℚ) ≤ t.attempts + 1) ↔ t.Exhausted := by
    unfold TaskMetaData.Exhausted
    norm_cast
  rw [hmax]
  simp only [luaCompare, hexh]
  push_cast
  rfl

end ForgeQueue
