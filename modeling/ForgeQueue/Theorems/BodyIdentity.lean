import ForgeQueue.Logic.Filed
import ForgeQueue.Model.Journal
import ForgeQueue.Model.JsonBody

/-!
# Bodies keep their ids

The worker, the operator's search of the dead list and the purge read the id of a task
out of a body. The bodies are filed under their own ids, so what they read is the id of
the key, and an entry of the dead list is a body that a failed attempt of that task put
there.
-/

namespace ForgeQueue

open Base

section

variable {Body : Type} [BodyCodec Body]

/-- The rows the reconcilers materialize were written by `RouteTask`. -/
def RowsRouted (_ : Desk Body) : DeskAct Body → Prop
  | .engine c => ∀ id score payload, c.op = .materialize id score payload →
      ∃ clock a, (routeRow clock a : Row Body).id = id ∧ (routeRow clock a).payload = payload
  | _ => True

/-- The body is read as one of task `id`, by the workers or by the operator's API. -/
def DecodesTo (id : String) (b : Body) : Prop :=
  (unmarshal b).map (·.id) = some id ∨ (apiUnmarshal b).map (·.id) = some id

/-- The call is a `requeueOrDead` that dead-letters task `id`, and `b` is the entry. -/
def DeadLetters (id : String) (b : Body) (r : Redis Body) (c : Call Body) : Prop :=
  ∃ leaseID base cap, c.op = .requeueOrDead id leaseID base cap ∧
    (requeueOrDead c.now base cap id leaseID r).2 = some .dead ∧
    (r.after c.now c.op).dead = b :: r.dead

/-- A document is read as one of its own task only. -/
theorem BodyOf.of_decodesTo {id x : String} {b : Body} (h : BodyOf id b) (hx : DecodesTo x b) :
    x = id := by
  obtain ⟨t, hdoc, rfl⟩ := h
  unfold DecodesTo at hx
  rw [hdoc.go, hdoc.api] at hx
  by_cases hf : t.Fits
  · simp only [if_pos hf, Option.map_some, Option.some.injEq, TaskMetaData.toApi, or_self] at hx
    exact hx.symm
  · simp only [if_neg hf, Option.map_none, or_self, reduceCtorEq] at hx

/-! ## Who writes the dead list -/

/-- Only a failed or a reclaimed attempt adds to it. -/
theorem Effect.dead_subset {r r' : Redis Body} {ev : Event} (h : Effect r ev r')
    (hfailed : ∀ t l status, ev ≠ .failed t l status)
    (hreclaimed : ∀ t l status, ev ≠ .reclaimed t l status) : r'.dead ⊆ r.dead := by
  cases h with
  | failed t l now base cap _ _ => exact absurd rfl (hfailed _ _ _)
  | reclaimed t e now base cap _ _ => exact absurd rfl (hreclaimed _ _ _)
  | enqueued a clock =>
    unfold routePush
    split <;> exact List.Subset.refl _
  | materialized t target payload _ =>
    unfold routePush
    split <;> exact List.Subset.refl _
  | wiped => exact List.nil_subset _
  | _ => exact List.Subset.refl _

/-- So does only a `requeueOrDead`. -/
theorem Redis.after_dead_subset (r : Redis Body) (now : ℚ) {op : Op Body}
    (hop : ∀ t l base cap, op ≠ .requeueOrDead t l base cap) :
    (r.after now op).dead ⊆ r.dead := by
  refine (r.after_trace now op).keeps (P := fun r' => r'.dead ⊆ r.dead) ?_ (List.Subset.refl _)
  intro r₁ ev r₂ hev heff h
  have hemits := Redis.emits_of_mem hev
  refine List.Subset.trans (heff.dead_subset ?_ ?_) h
  · rintro t l status rfl
    obtain ⟨base, cap, heq⟩ := Op.emits_source hemits
    exact hop t l base cap heq
  · rintro t l status rfl
    obtain ⟨l', base, cap, heq⟩ := Op.emits_source hemits
    exact hop t l' base cap heq

/-- A request removes entries and adds none. -/
theorem Write.dead_subset [DecidableEq Body] (r : Redis Body) (wr : Write Body) :
    (wr.apply r).dead ⊆ r.dead := by
  cases wr with
  | lrem body => exact List.erase_subset
  | purgeDLQTx bodies => exact List.nil_subset _
  | _ => exact List.Subset.refl _

end

section

variable {Body : Type} [TaskCodec Body]

/-- An entry that a command adds is a body that the command dead-letters. -/
theorem Filed.dead_after {r : Redis Body} (h : Filed r) {c : Call Body} {b : Body}
    (hnot : b ∉ r.dead) (hb : b ∈ (r.after c.now c.op).dead) :
    ∃ id, BodyOf id b ∧ DeadLetters id b r c := by
  obtain ⟨now, op⟩ := c
  by_cases hop : ∃ t l base cap, op = .requeueOrDead t l base cap
  · obtain ⟨t, l, base, cap, rfl⟩ := hop
    have hafter : r.after now (.requeueOrDead t l base cap) =
        (requeueOrDead now base cap t l r).1 := rfl
    simp only [hafter, requeueOrDead] at hb
    cases hg : requeueGuard now t l r with
    | some status =>
      rw [hg] at hb
      exact absurd hb hnot
    | none =>
      rw [hg] at hb
      cases hbody : r.task t with
      | none =>
        rw [retryOrBury, release_task, hbody] at hb
        exact absurd hb hnot
      | some body =>
        obtain ⟨doc, hdoc, hid⟩ := h.task t body hbody
        obtain ⟨b', hdoc', heq⟩ := retryOrBury_doc now base cap t (r.release t) hbody hdoc
        by_cases hx : doc.Exhausted
        · rw [heq, if_pos hx] at hb
          rcases List.mem_cons.mp hb with rfl | hb
          · refine ⟨t, ⟨doc.bump, hdoc', hid⟩, l, base, cap, rfl, ?_, ?_⟩
            · rw [requeueOrDead, hg]
              dsimp only
              rw [heq, if_pos hx]
            · rw [hafter, requeueOrDead, hg]
              dsimp only
              rw [heq, if_pos hx]
              rfl
          · exact absurd hb hnot
        · rw [heq, if_neg hx] at hb
          exact absurd hb hnot
  · have hsub := r.after_dead_subset now fun t l base cap heq => hop ⟨t, l, base, cap, heq⟩
    exact absurd (hsub hb) hnot

variable [DecidableEq Body]

/-- **Step.** -/
theorem Desk.Filed.dead_step {d d' : Desk Body} {act : DeskAct Body} (h : d.Filed)
    (hst : d.step act = some d') {b : Body} (hnot : b ∉ d.redis.dead) (hb : b ∈ d'.redis.dead) :
    ∃ c id, act = .engine c ∧ BodyOf id b ∧ DeadLetters id b d.redis c := by
  obtain ⟨c, rfl, rfl⟩ | ⟨k, demand, rfl, -, rfl⟩ | ⟨k, q, rfl, hq, -, rfl⟩ :=
    Desk.step_cases hst
  · obtain ⟨id, hid, hdl⟩ := h.store.dead_after hnot hb
    exact ⟨c, id, rfl, hid, hdl⟩
  · exact absurd hb hnot
  · change b ∈ (q.step d.redis).1.dead at hb
    rw [q.step_write] at hb
    exact absurd (Write.dead_subset _ _ hb) hnot

omit [DecidableEq Body] in
theorem RowsRouted.bodiesFiled {d : Desk Body} {act : DeskAct Body} (h : RowsRouted d act) :
    BodiesFiled d act := by
  cases act with
  | engine c =>
    intro id score payload heq
    obtain ⟨clock, a, rfl, rfl⟩ := h id score payload heq
    exact ⟨routeData a, TaskCodec.marshal_isDoc _ (routeData_fits a), rfl⟩
  | receive k demand => trivial
  | next k => trivial

/-- **Body identity.** In every state that the gateway, the workers, the reconcilers and the
operators' requests can reach together: what `task:<id>` decodes to has the id `id`; an
entry of the dead list that decodes to task `x` was put there by a call that dead-lettered
`x`; and a body that comes with a claim decodes to the claimed task. -/
theorem bodies_keep_their_ids {acts : List (DeskAct Body)} {d : Desk Body}
    (hrun : DeskRun RowsRouted Desk.init acts d) :
    (∀ id b, d.redis.task id = some b → ∀ x, DecodesTo x b → x = id) ∧
    (∀ b ∈ d.redis.dead, ∀ x, DecodesTo x b → ∃ before c after d₀,
      acts = before ++ .engine c :: after ∧ DeskRun RowsRouted Desk.init before d₀ ∧
        DeadLetters x b d₀.redis c) ∧
    (∀ leaseIDs expiry, ∀ k ∈ (claimBatch leaseIDs expiry d.redis).2, ∀ b t,
      k.body = some b → unmarshal b = some t → t.id = k.taskID) := by
  have hfiled : ∀ {acts' d'}, DeskRun RowsRouted (Desk.init : Desk Body) acts' d' → d'.Filed :=
    fun hrun' => Desk.Filed.init.run (hrun'.mono fun _ _ _ hok _ => hok.bodiesFiled)
  refine ⟨?_, ?_, ?_⟩
  · intro id b hb x hx
    exact ((hfiled hrun).store.task id b hb).of_decodesTo hx
  · intro b hb x hx
    -- the entry was not always there
    obtain ⟨before, act, after, d₀, d₁, rfl, hrun₀, -, hst, hnot, hnow⟩ :=
      hrun.origin (fun d => b ∈ d.redis.dead) List.not_mem_nil hb
    obtain ⟨c, id, rfl, hid, hdl⟩ := (hfiled hrun₀).dead_step hst hnot hnow
    obtain rfl := hid.of_decodesTo hx
    exact ⟨before, c, after, d₀, rfl, hrun₀, hdl⟩
  · intro leaseIDs expiry k hk b t hb ht
    have hbody : d.redis.task k.taskID = some b := by
      rw [← hb]
      exact (claimBatch_body hk).symm
    exact ((hfiled hrun).store.task _ b hbody).of_decodesTo (.inl (by rw [ht]; rfl))

end

/-- A row with one attempt is materialized, claimed, and its attempt fails. -/
def sweptThenBuried : List (DeskAct JsonBody) :=
  [.engine ⟨100, .materialize "job" none (marshal (routeData { sampleArgs with maxRetries := 1 }))⟩,
    .engine ⟨101, .claimBatch ["L1"] 131⟩, .engine ⟨102, .requeueOrDead "job" "L1" 1 60⟩]

/-- The body that was rebuilt from the journal and the entry it became are filed. -/
theorem bodies_keep_their_ids_buried :
    ∃ d : Desk JsonBody, DeskRun RowsRouted Desk.init sweptThenBuried d ∧
      ∃ b ∈ d.redis.dead, d.redis.task "job" = some b ∧ DecodesTo "job" b ∧
        (∀ x, DecodesTo x b → x = "job") ∧ ∃ before c after, ∃ d₀ : Desk JsonBody,
          sweptThenBuried = before ++ .engine c :: after ∧ DeadLetters "job" b d₀.redis c := by
  have hok : ∀ act ∈ sweptThenBuried, ∀ d : Desk JsonBody, RowsRouted d act := by
    intro act hact d
    simp only [sweptThenBuried, List.mem_cons, List.not_mem_nil, or_false] at hact
    rcases hact with rfl | rfl | rfl
    · intro id score payload heq
      cases heq
      exact ⟨0, { sampleArgs with maxRetries := 1 }, rfl, rfl⟩
    · exact nofun
    · exact nofun
  have hend : (runList Desk.step (Desk.init : Desk JsonBody) sweptThenBuried).any (fun d =>
      d.redis.dead.any fun b => decide (d.redis.task "job" = some b ∧
        (unmarshal b).map (·.id) = some "job")) = true := by
    decide +kernel
  obtain ⟨d, hrun, hp⟩ := Run.exists_of_any hok hend
  obtain ⟨b, hmem, hb⟩ := List.any_eq_true.mp hp
  obtain ⟨htask, hdec⟩ := of_decide_eq_true hb
  obtain ⟨hids, hbury, -⟩ := bodies_keep_their_ids hrun
  obtain ⟨before, c, after, d₀, heq, -, hdl⟩ := hbury b hmem "job" (.inl hdec)
  exact ⟨d, hrun, b, hmem, htask, .inl hdec, hids "job" b htask, before, c, after, d₀, heq, hdl⟩

end ForgeQueue
