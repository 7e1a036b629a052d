import ForgeQueue.Logic.Scripts
import ForgeQueue.Model.JsonBody

/-!
# Fencing

Every command may occur here: gateway writes, worker scripts, the reconciler's
script, the API's transactions, even a wipe. The only promise is that a lease token
is not handed out twice. Then a token that stopped being the current lease of its
task is worthless for the rest of the run, and every token ends at most once.
-/

namespace ForgeQueue

open Base

/-- The event ends the lease of `taskID` under `leaseID`: an ACK, an owner's failure
report, or a recovery that found this token. -/
def Event.consumes (taskID leaseID : String) : Event → Bool
  | .acked t l => t == taskID && l == leaseID
  | .failed t l _ => t == taskID && l == leaseID
  | .reclaimed t l _ => t == taskID && l == some leaseID
  | _ => false

/-- `leaseID` was granted for `taskID`. -/
def Granted (log : List Event) (taskID leaseID : String) : Prop :=
  ∃ expiry, .claimed taskID leaseID expiry ∈ log

theorem Granted.cons {log : List Event} {t l : String} (h : Granted log t l) (ev : Event) :
    Granted (ev :: log) t l := by
  obtain ⟨e, he⟩ := h
  exact ⟨e, List.mem_cons_of_mem _ he⟩

/-- Lease tokens are non-empty and never granted twice. -/
def FreshOk (log : List Event) : Event → Prop
  | .claimed _ l _ => l ≠ "" ∧ ∀ t, ¬ Granted log t l
  | _ => True

section Invariant

variable {Body : Type}

/-- The state of the leases as the history tells it. -/
structure Leases (r : Redis Body) (log : List Event) : Prop where
  coupled : Coupled r
  granted : ∀ t l, r.leases t = some l → Granted log t l
  nonempty : ∀ t l, Granted log t l → l ≠ ""
  consumed : ∀ t l, ∀ ev ∈ log, ev.consumes t l = true → Granted log t l
  current : ∀ t l, r.leases t = some l → log.countP (Event.consumes t l) = 0
  once : ∀ t l, log.countP (Event.consumes t l) ≤ 1

theorem Leases.init : Leases (Redis.empty : Redis Body) [] where
  coupled := .empty
  granted _ _ h := by cases h
  nonempty _ _ h := by obtain ⟨e, he⟩ := h; cases he
  consumed _ _ _ h := by cases h
  current _ _ _ := rfl
  once _ _ := Nat.zero_le _

/-- An event that neither grants nor ends a lease, and leaves no new lease behind. -/
theorem Leases.quiet {r r' : Redis Body} {log : List Event} {ev : Event} (h : Leases r log)
    (hno : ∀ t l, ev.consumes t l = false) (hcl : ∀ t l e, ev ≠ .claimed t l e)
    (hcoup : Coupled r')
    (hsub : ∀ t l, r'.leases t = some l → r.leases t = some l) : Leases r' (ev :: log) where
  coupled := hcoup
  granted t l hl := (h.granted t l (hsub t l hl)).cons ev
  nonempty t l hg := by
    obtain ⟨e, he⟩ := hg
    rcases List.mem_cons.mp he with heq | hmem
    · exact absurd heq.symm (hcl t l e)
    · exact h.nonempty t l ⟨e, hmem⟩
  consumed t l x hx hc := by
    rcases List.mem_cons.mp hx with rfl | hmem
    · rw [hno t l] at hc; cases hc
    · exact (h.consumed t l x hmem hc).cons ev
  current t l hl := by
    rw [List.countP_cons_of_neg (by rw [hno t l]; exact Bool.false_ne_true)]
    exact h.current t l (hsub t l hl)
  once t l := by
    rw [List.countP_cons_of_neg (by rw [hno t l]; exact Bool.false_ne_true)]
    exact h.once t l

/-- An event that ends the current lease of one task. -/
theorem Leases.ended {r r' : Redis Body} {log : List Event} {ev : Event} {t₀ l₀ : String}
    (h : Leases r log) (hcur : r.leases t₀ = some l₀)
    (hev : ∀ t l, ev.consumes t l = true ↔ t₀ = t ∧ l₀ = l)
    (hcl : ∀ t l e, ev ≠ .claimed t l e)
    (hcoup : Coupled r') (hleas : r'.leases = del r.leases t₀) :
    Leases r' (ev :: log) := by
  have hsub : ∀ t l, r'.leases t = some l → t ≠ t₀ ∧ r.leases t = some l := by
    intro t l hl
    rw [hleas] at hl
    exact del_eq_some.mp hl
  refine ⟨hcoup, ?_, ?_, ?_, ?_, ?_⟩
  · intro t l hl
    exact (h.granted t l (hsub t l hl).2).cons ev
  · intro t l hg
    obtain ⟨e, he⟩ := hg
    rcases List.mem_cons.mp he with heq | hmem
    · exact absurd heq.symm (hcl t l e)
    · exact h.nonempty t l ⟨e, hmem⟩
  · intro t l x hx hc
    rcases List.mem_cons.mp hx with rfl | hmem
    · obtain ⟨rfl, rfl⟩ := (hev t l).mp hc
      exact (h.granted _ _ hcur).cons x
    · exact (h.consumed t l x hmem hc).cons ev
  · intro t l hl
    obtain ⟨ht, hl'⟩ := hsub t l hl
    have hno : ¬ ev.consumes t l = true := fun hc => ht ((hev t l).mp hc).1.symm
    rw [List.countP_cons_of_neg hno]
    exact h.current t l hl'
  · intro t l
    by_cases hc : ev.consumes t l = true
    · -- the token was still current, so nothing had consumed it before
      obtain ⟨rfl, rfl⟩ := (hev t l).mp hc
      rw [List.countP_cons_of_pos hc, h.current _ _ hcur]
    · rw [List.countP_cons_of_neg hc]
      exact h.once t l

variable [BodyCodec Body]

/-- **Step.** Every effect with fresh tokens keeps the lease invariant. -/
theorem Leases.effect {r r' : Redis Body} {log : List Event} {ev : Event}
    (h : Leases r log) (hok : FreshOk log ev) (heff : Effect r ev r') :
    Leases r' (ev :: log) := by
  have hcoup := h.coupled.effect heff
  cases heff with
  | bodySet a => exact h.quiet (fun _ _ => rfl) nofun hcoup (fun _ _ hl => hl)
  | enqueued a clock =>
    refine h.quiet (fun _ _ => rfl) nofun hcoup ?_
    unfold routePush
    split <;> exact fun _ _ hl => hl
  | paused on => exact h.quiet (fun _ _ => rfl) nofun hcoup (fun _ _ hl => hl)
  | claimed t₀ ready l₀ e hp hr =>
    obtain ⟨hne, hfresh⟩ := hok
    have hno : ∀ t l, ¬ (Event.claimed t₀ l₀ e).consumes t l = true := nofun
    refine ⟨hcoup, ?_, ?_, ?_, ?_, ?_⟩
    · intro t l hl
      rcases put_eq_some.mp hl with ⟨rfl, rfl⟩ | ⟨-, hl'⟩
      · exact ⟨e, List.mem_cons_self⟩
      · exact (h.granted t l hl').cons _
    · intro t l hg
      obtain ⟨e', he'⟩ := hg
      rcases List.mem_cons.mp he' with heq | hmem
      · cases heq; exact hne
      · exact h.nonempty t l ⟨e', hmem⟩
    · intro t l x hx hc
      rcases List.mem_cons.mp hx with rfl | hmem
      · cases hc
      · exact (h.consumed t l x hmem hc).cons _
    · intro t l hl
      rw [List.countP_cons_of_neg (hno t l)]
      rcases put_eq_some.mp hl with ⟨rfl, rfl⟩ | ⟨-, hl'⟩
      · -- the new token: it was never granted, so no event consumed it
        rw [List.countP_eq_zero]
        intro x hx hc
        exact hfresh t (h.consumed t l₀ x hx hc)
      · exact h.current t l hl'
    · intro t l
      rw [List.countP_cons_of_neg (hno t l)]
      exact h.once t l
  | beat t₀ l₀ e hl₀ => exact h.quiet (fun _ _ => rfl) nofun hcoup (fun _ _ hl => hl)
  | acked t₀ l₀ hl₀ =>
    exact h.ended hl₀ (by simp [Event.consumes]) nofun hcoup rfl
  | failed t₀ l₀ now base cap _ hl₀ =>
    have hf := retryOrBury_frame now base cap t₀ (r.release t₀)
    exact h.ended hl₀ (by simp [Event.consumes]) nofun hcoup hf.leases
  | reclaimed t₀ e now base cap he _ =>
    have hf := retryOrBury_frame now base cap t₀ (r.release t₀)
    obtain ⟨l₀, hl₀⟩ : ∃ l₀, r.leases t₀ = some l₀ := by
      rw [← Option.isSome_iff_exists, ← h.coupled t₀, he]
      rfl
    exact h.ended hl₀ (by simp [Event.consumes, hl₀]) nofun hcoup hf.leases
  | promoted t score now _ _ =>
    exact h.quiet (fun _ _ => rfl) nofun hcoup (fun _ _ hl => hl)
  | materialized t target payload _ =>
    refine h.quiet (fun _ _ => rfl) nofun hcoup ?_
    unfold routePush
    split <;> exact fun _ _ hl => hl
  | requeued t₀ =>
    -- the operator revokes whatever lease there is
    exact h.quiet (fun _ _ => rfl) nofun hcoup (fun _ _ hl => (del_eq_some.mp hl).2)
  | deleted t₀ =>
    exact h.quiet (fun _ _ => rfl) nofun hcoup (fun _ _ hl => (del_eq_some.mp hl).2)
  | wiped => exact h.quiet (fun _ _ => rfl) nofun hcoup (fun _ _ hl => nomatch hl)

/-- A lease that is current after an event was current before, or was granted by it. -/
theorem Effect.lease_origin {r r' : Redis Body} {ev : Event} {t l : String}
    (heff : Effect r ev r') (hl : r'.leases t = some l) :
    r.leases t = some l ∨ ∃ e, ev = .claimed t l e := by
  cases heff with
  | bodySet a => exact .inl hl
  | enqueued a clock =>
    unfold routePush at hl
    split at hl <;> exact .inl hl
  | paused on => exact .inl hl
  | claimed t₀ ready l₀ e _ _ =>
    rcases put_eq_some.mp hl with ⟨rfl, rfl⟩ | ⟨-, hl'⟩
    · exact .inr ⟨e, rfl⟩
    · exact .inl hl'
  | beat t₀ l₀ e _ => exact .inl hl
  | acked t₀ l₀ _ => exact .inl (del_eq_some.mp hl).2
  | failed t₀ l₀ now base cap _ _ =>
    rw [(retryOrBury_frame now base cap t₀ (r.release t₀)).leases] at hl
    exact .inl (del_eq_some.mp hl).2
  | reclaimed t₀ e now base cap _ _ =>
    rw [(retryOrBury_frame now base cap t₀ (r.release t₀)).leases] at hl
    exact .inl (del_eq_some.mp hl).2
  | promoted t₀ score now _ _ => exact .inl hl
  | materialized t₀ target payload _ =>
    unfold routePush at hl
    split at hl <;> exact .inl hl
  | requeued t₀ => exact .inl (del_eq_some.mp hl).2
  | deleted t₀ => exact .inl (del_eq_some.mp hl).2
  | wiped => cases hl

/-- The token was granted and is not the current lease of its task. -/
def Stale (t l : String) (r : Redis Body) (log : List Event) : Prop :=
  Granted log t l ∧ r.leases t ≠ some l

/-- **Stale stays stale.** No event makes an old token current again. -/
theorem Stale.effect {r r' : Redis Body} {log : List Event} {ev : Event} {t l : String}
    (h : Stale t l r log) (hok : FreshOk log ev) (heff : Effect r ev r') :
    Stale t l r' (ev :: log) := by
  refine ⟨h.1.cons ev, ?_⟩
  intro hl
  rcases heff.lease_origin hl with hold | ⟨e, rfl⟩
  · exact h.2 hold
  · exact hok.2 t h.1

end Invariant

/-! ## Presenting a token that is not current -/

section Rejected

variable {Body : Type}

/-- A pair that is not current when the batch starts acknowledges nothing: dropping
it changes neither the state nor the reply. -/
theorem ackBatch_drop {t l : String} (pairs : List (String × String)) :
    ∀ r : Redis Body, r.leases t ≠ some l →
      ackBatch pairs r = ackBatch (pairs.filter (· ≠ (t, l))) r := by
  induction pairs with
  | nil => intro r _; rfl
  | cons p rest ih =>
    intro r hr
    obtain ⟨t', l'⟩ := p
    by_cases hp : (t', l') = (t, l)
    · obtain ⟨rfl, rfl⟩ := Prod.mk.inj hp
      rw [List.filter_cons_of_neg (by simp), ackBatch, if_neg hr]
      exact ih r hr
    · rw [List.filter_cons_of_pos (by rw [decide_eq_true_eq]; exact hp), ackBatch, ackBatch]
      by_cases hc : r.leases t' = some l'
      · -- an ACK only removes leases, so the stale pair stays stale
        rw [if_pos hc, if_pos hc, ih]
        exact fun hl => hr (del_eq_some.mp hl).2
      · rw [if_neg hc, if_neg hc]
        exact ih r hr

variable [BodyCodec Body]

/-- Whatever presents `(t, l)` is turned away and leaves no trace. -/
structure Rejects (r : Redis Body) (t l : String) : Prop where
  heartbeat : ∀ now d, ForgeQueue.heartbeat now d t l r = (r, false)
  ack : ∀ pairs, ackBatch pairs r = ackBatch (pairs.filter (· ≠ (t, l))) r
  requeueOrDead : ∀ now base cap,
    ForgeQueue.requeueOrDead now base cap t l r = (r, some .fenced)

theorem Rejects.of_not_current {r : Redis Body} {t l : String} (hne : l ≠ "")
    (h : r.leases t ≠ some l) : Rejects r t l where
  heartbeat now d := by rw [ForgeQueue.heartbeat, if_neg h]
  ack pairs := ackBatch_drop pairs r h
  requeueOrDead now base cap := by
    rw [ForgeQueue.requeueOrDead, requeueGuard, if_pos hne, if_neg h]

end Rejected

/-! ## Who rewrites a body -/

section Bodies

variable {Body : Type}

/-- The command writes a body of its own for `t`: the gateway's first write and the
reconciler's script. -/
def Op.writesBody (t : String) : Op Body → Prop
  | .routeBody a => a.id = t
  | .materialize id _ _ => id = t
  | _ => False

variable [BodyCodec Body]

/-- A `requeueOrDead` that does anything ends the current lease, and it is one
event. -/
theorem requeueOrDead_consumes {r : Redis Body} {log : List Event} (h : Leases r log)
    (now base cap : ℚ) (taskID leaseID : String) :
    (requeueOrDead now base cap taskID leaseID r).1 = r ∨
      ∃ l ev, r.leases taskID = some l ∧ ev.consumes taskID l = true ∧
        requeueEvents now base cap taskID leaseID r = [ev] := by
  unfold requeueOrDead requeueEvents
  cases hg : requeueGuard now taskID leaseID r with
  | some status => exact .inl rfl
  | none =>
    refine .inr ?_
    unfold requeueGuard at hg
    by_cases hne : leaseID ≠ ""
    · rw [if_pos hne] at hg
      by_cases hc : r.leases taskID = some leaseID
      · refine ⟨leaseID, _, hc, ?_, if_pos hne⟩
        simp [Event.consumes]
      · rw [if_neg hc] at hg
        cases hg
    · -- recovery: an inflight entry has a lease beside it
      rw [if_neg hne] at hg
      have hsome : (r.leases taskID).isSome := by
        rw [← h.coupled taskID]
        cases hi : r.inflight taskID with
        | none => rw [hi] at hg; cases hg
        | some e => rfl
      obtain ⟨l, hl⟩ := Option.isSome_iff_exists.mp hsome
      refine ⟨l, _, hl, ?_, if_neg hne⟩
      simp [Event.consumes, hl]

/-- **Increments.** A command that changes a body, other than by deleting it or by
writing its own, consumes the current lease of that task, in one event. -/
theorem body_rewrite_consumes {e : Engine Body} (h : Leases e.redis e.log) (c : Call Body)
    {t : String} (hown : ¬ c.op.writesBody t)
    (hne : (e.exec c).redis.task t ≠ e.redis.task t)
    (hsome : (e.exec c).redis.task t ≠ none) :
    ∃ l ev, e.redis.leases t = some l ∧ ev.consumes t l = true ∧
      (e.exec c).log = ev :: e.log := by
  obtain ⟨now, op⟩ := c
  simp only [Engine.exec] at hne hsome ⊢
  cases op with
  | routeBody a => exact absurd (put_of_ne _ _ fun he => hown he.symm) hne
  | routePush a clock =>
    simp only [Redis.after, ForgeQueue.routePush] at hne
    split at hne <;> exact absurd rfl hne
  | pause => exact absurd rfl hne
  | resume => exact absurd rfl hne
  | claimBatch leaseIDs expiry =>
    simp only [Redis.after, ForgeQueue.claimBatch] at hne
    split at hne
    · exact absurd rfl hne
    · rw [claimLoop_task] at hne
      exact absurd rfl hne
  | heartbeat taskID leaseID d =>
    simp only [Redis.after, ForgeQueue.heartbeat] at hne
    split at hne <;> exact absurd rfl hne
  | ackBatch pairs =>
    rcases ackBatch_task t pairs e.redis with hs | hn
    · exact absurd hs hne
    · exact absurd hn hsome
  | requeueOrDead taskID leaseID base cap =>
    rcases requeueOrDead_consumes h now base cap taskID leaseID with hs | ⟨l, ev, hl, hc, hev⟩
    · simp only [Redis.after, hs] at hne
      exact absurd rfl hne
    · by_cases ht : t = taskID
      · subst ht
        refine ⟨l, ev, hl, hc, ?_⟩
        simp only [Redis.events, hev, List.reverse_singleton, List.singleton_append]
      · refine absurd ?_ hne
        simp only [Redis.after, ForgeQueue.requeueOrDead]
        split
        · rfl
        · exact (retryOrBury_frame now base cap taskID _).task t ht
  | promoteTask taskID =>
    simp only [Redis.after, ForgeQueue.promoteTask] at hne
    split at hne
    · exact absurd rfl hne
    · split at hne <;> exact absurd rfl hne
  | materialize id score payload =>
    refine absurd ?_ hne
    have ht : t ≠ id := fun he => hown he.symm
    simp only [Redis.after, materializeScript]
    split
    · rfl
    · cases score <;> exact put_of_ne _ _ ht
  | requeueTx id => exact absurd rfl hne
  | deleteTx id =>
    by_cases ht : t = id
    · exact absurd (ht ▸ del_self _ _) hsome
    · exact absurd (del_of_ne _ ht) hne
  | wipe => exact absurd rfl hsome

end Bodies

/-! ## Whole runs -/

variable {Body : Type} [BodyCodec Body]

/-- Any command may be sent; the tokens of a claim are non-empty, distinct and were
never granted before. -/
def FreshTokens (e : Engine Body) (c : Call Body) : Prop :=
  match c.op with
  | .claimBatch leaseIDs _ =>
    leaseIDs.Nodup ∧ ∀ l ∈ leaseIDs, l ≠ "" ∧ ∀ t, ¬ Granted e.log t l
  | _ => True

/-- Distinct fresh tokens stay fresh while the batch is granted. -/
theorem fresh_claims {leaseIDs ids : List String} (expiry : ℚ) :
    ∀ log, leaseIDs.Nodup → (∀ l ∈ leaseIDs, l ≠ "" ∧ ∀ t, ¬ Granted log t l) →
      Allowed FreshOk log
        (List.zipWith (fun taskID leaseID => .claimed taskID leaseID expiry) ids leaseIDs) := by
  induction leaseIDs generalizing ids with
  | nil => intro log _ _; rw [List.zipWith_nil_right]; trivial
  | cons l rest ih =>
    intro log hnd hf
    cases ids with
    | nil => trivial
    | cons id ids =>
      obtain ⟨hl, hnd'⟩ := List.nodup_cons.mp hnd
      refine ⟨hf l List.mem_cons_self, ih _ hnd' ?_⟩
      intro l' hl'
      obtain ⟨hne, hg⟩ := hf l' (List.mem_cons_of_mem _ hl')
      refine ⟨hne, ?_⟩
      rintro t ⟨e, he⟩
      rcases List.mem_cons.mp he with heq | hmem
      · injection heq with _ h2 _
        exact hl (h2 ▸ hl')
      · exact hg t ⟨e, hmem⟩

theorem FreshTokens.allowed {e : Engine Body} {c : Call Body} (h : FreshTokens e c) :
    Allowed FreshOk e.log (e.redis.events c.now c.op) := by
  obtain ⟨now, op⟩ := c
  cases op with
  | claimBatch leaseIDs expiry =>
    simp only [Redis.events, ForgeQueue.claimBatch]
    split
    · trivial
    · rw [List.map_zipWith]
      exact fresh_claims expiry e.log h.1 h.2
  | ackBatch pairs =>
    refine .of_emits ?_ _
    rintro ev log ⟨t, l, rfl⟩
    trivial
  | requeueOrDead taskID leaseID base cap =>
    refine .of_emits ?_ _
    rintro ev log (⟨status, rfl⟩ | ⟨l, status, rfl⟩) <;> trivial
  | heartbeat taskID leaseID d =>
    refine .of_emits ?_ _
    rintro ev log ⟨x, rfl⟩
    trivial
  | promoteTask taskID =>
    refine .of_emits ?_ _
    rintro ev log rfl
    trivial
  | materialize id score payload =>
    refine .of_emits ?_ _
    rintro ev log rfl
    trivial
  | _ => exact ⟨trivial, trivial⟩

/-- The lease invariant holds in every reachable state. -/
theorem leases_of_run {cs : List (Call Body)} {e : Engine Body}
    (h : EngineRun FreshTokens .init cs e) : Leases e.redis e.log :=
  EngineRun.invariant Leases (fun _ _ hok => hok.allowed)
    (fun _ _ _ _ hok heff hi => hi.effect hok heff) h .init

/-- **Fencing over whole runs.** A granted token that is no longer the current lease
of its task is rejected in every later state; every token is consumed at most once; and
a command that rewrites a body consumes the current token of that task. -/
theorem stale_tokens_are_fenced {cs : List (Call Body)} {e : Engine Body}
    (hrun : EngineRun FreshTokens .init cs e) :
    (∀ t l, Granted e.log t l → e.redis.leases t ≠ some l →
      ∀ cs' e', EngineRun FreshTokens e cs' e' → Rejects e'.redis t l) ∧
    (∀ t l, e.log.countP (Event.consumes t l) ≤ 1) ∧
    (∀ (c : Call Body) t, ¬ c.op.writesBody t →
      (e.exec c).redis.task t ≠ e.redis.task t → (e.exec c).redis.task t ≠ none →
      ∃ l ev, Granted e.log t l ∧ e.redis.leases t = some l ∧ ev.consumes t l = true ∧
        (e.exec c).log = ev :: e.log) := by
  have hinv := leases_of_run hrun
  refine ⟨?_, hinv.once, ?_⟩
  · intro t l hg hstale cs' e' hrun'
    have hst : Stale t l e'.redis e'.log :=
      EngineRun.invariant (Stale t l) (fun _ _ hok => hok.allowed)
        (fun _ _ _ _ hok heff hi => hi.effect hok heff) hrun' ⟨hg, hstale⟩
    exact .of_not_current (hinv.nonempty t l hg) hst.2
  · intro c t hown hne hsome
    obtain ⟨l, ev, hl, hc, hlog⟩ := body_rewrite_consumes hinv c hown hne hsome
    exact ⟨l, ev, hinv.granted t l hl, hl, hc, hlog⟩

/-- The lease `L1` expires, recovery takes the task back and it is claimed again. -/
def reclaimCalls : List (Call JsonBody) :=
  [⟨0, .routeBody sampleArgs⟩, ⟨0, .routePush sampleArgs 0⟩, ⟨1, .claimBatch ["L1"] 31⟩,
    ⟨40, .requeueOrDead "job" "" 1 60⟩, ⟨41, .promoteTask "job"⟩, ⟨42, .claimBatch ["L2"] 72⟩]

theorem reclaimCalls_run :
    EngineRun FreshTokens .init reclaimCalls (Engine.init.execAll reclaimCalls) := by
  refine .cons trivial rfl (.cons trivial rfl (.cons ⟨by decide, ?_⟩ rfl (.cons trivial rfl
    (.cons trivial rfl (.cons ⟨by decide, ?_⟩ rfl .nil)))))
  · intro l hl
    obtain rfl := List.mem_singleton.mp hl
    refine ⟨by decide, ?_⟩
    rintro t ⟨e, he⟩
    simp [Engine.exec, Engine.init, Redis.events] at he
  · intro l hl
    obtain rfl := List.mem_singleton.mp hl
    refine ⟨by decide, ?_⟩
    rintro t ⟨e, he⟩
    have hlog : (Engine.init.execAll (reclaimCalls.take 5)).log =
        [.promoted "job", .reclaimed "job" (some "L1") (some .scheduled),
          .claimed "job" "L1" 31, .enqueued sampleArgs, .bodySet sampleArgs] := by
      decide +kernel
    change _ ∈ (Engine.init.execAll (reclaimCalls.take 5)).log at he
    rw [hlog] at he
    simp at he

/-- The first owner's token is fenced while the second owner works. -/
theorem stale_tokens_are_fenced_after_reclaim :
    (Engine.init.execAll reclaimCalls).redis.leases "job" = some "L2" ∧
      Rejects (Engine.init.execAll reclaimCalls).redis "job" "L1" := by
  refine ⟨by decide +kernel, ?_⟩
  exact (stale_tokens_are_fenced reclaimCalls_run).1 "job" "L1" ⟨31, by decide +kernel⟩
    (by decide +kernel) [] _ .nil

end ForgeQueue
