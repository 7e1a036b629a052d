import ForgeQueue.Logic.Lifecycle
import ForgeQueue.Model.JsonBody

/-!
# A lease kept alive is never reclaimed

Time is Redis's clock at each command, non-decreasing along the run. Recovery loops
choose their candidates with clocks of their own, so here they are what the server
sees of them: `requeueOrDead` calls for any task at any time. As long as the owner's
next call comes before the expiry the server holds, every one of them answers
`renewed`.
-/

namespace ForgeQueue

open Base

section Scripts

variable {Body : Type}

/-- A task that is not in the ready list is not touched by a claim. -/
theorem claimLoop_absent {t : String} (expiry : ℚ) (leaseIDs : List String) :
    ∀ r : Redis Body, t ∉ r.immediate →
      (claimLoop expiry leaseIDs r).1.leases t = r.leases t ∧
      (claimLoop expiry leaseIDs r).1.inflight t = r.inflight t ∧
      t ∉ (claimLoop expiry leaseIDs r).2 := by
  induction leaseIDs with
  | nil => intro r _; exact ⟨rfl, rfl, List.not_mem_nil⟩
  | cons l rest ih =>
    intro r ht
    cases hr : r.immediate with
    | nil => simp [claimLoop, hr]
    | cons taskID ready =>
      simp only [claimLoop, hr]
      rw [hr, List.mem_cons, not_or] at ht
      obtain ⟨h1, h2, h3⟩ := ih { r with
        immediate := ready, inflight := put r.inflight taskID expiry
        leases := put r.leases taskID l } ht.2
      refine ⟨h1.trans (put_of_ne _ _ ht.1), h2.trans (put_of_ne _ _ ht.1), ?_⟩
      rw [List.mem_cons, not_or]
      exact ⟨ht.1, h3⟩

/-- A task that is once in the ready list and is popped holds the token it was paired
with. -/
theorem claimLoop_granted {t l : String} (expiry : ℚ) (leaseIDs : List String) :
    ∀ r : Redis Body, r.immediate.count t ≤ 1 →
      (t, l) ∈ (claimLoop expiry leaseIDs r).2.zip leaseIDs →
      (claimLoop expiry leaseIDs r).1.leases t = some l ∧
      (claimLoop expiry leaseIDs r).1.inflight t = some expiry := by
  induction leaseIDs with
  | nil => intro r _ h; cases h
  | cons l' rest ih =>
    intro r hc h
    cases hr : r.immediate with
    | nil => simp [claimLoop, hr] at h
    | cons taskID ready =>
      simp only [claimLoop, hr, List.zip_cons_cons, List.mem_cons] at h ⊢
      rw [hr] at hc
      rcases h with heq | hmem
      · -- popped here, so it is not in the rest of the list
        obtain ⟨rfl, rfl⟩ := Prod.mk.inj heq
        have hnot : t ∉ ready := by
          rw [List.count_cons_self] at hc
          exact List.count_eq_zero.mp (by omega)
        obtain ⟨h1, h2, -⟩ := claimLoop_absent expiry rest { r with
          immediate := ready, inflight := put r.inflight t expiry
          leases := put r.leases t l } hnot
        exact ⟨h1.trans (put_self _ _ _), h2.trans (put_self _ _ _)⟩
      · refine ih _ ?_ hmem
        exact (List.count_le_count_cons).trans hc

/-- A batch without the pair leaves the lease of the task alone. -/
theorem ackBatch_other {t l : String} (pairs : List (String × String)) :
    ∀ r : Redis Body, r.leases t = some l → (t, l) ∉ pairs →
      (ackBatch pairs r).1.leases t = some l ∧
      (ackBatch pairs r).1.inflight t = r.inflight t := by
  induction pairs with
  | nil => intro r hl _; exact ⟨hl, rfl⟩
  | cons p rest ih =>
    intro r hl hp
    obtain ⟨t', l'⟩ := p
    rw [List.mem_cons, not_or] at hp
    unfold ackBatch
    by_cases hc : r.leases t' = some l'
    · have ht : t ≠ t' := by
        rintro rfl
        exact hp.1 (by rw [Option.some.inj (hl.symm.trans hc)])
      rw [if_pos hc]
      obtain ⟨h1, h2⟩ := ih { r.release t' with task := del r.task t' }
        ((del_of_ne _ ht).trans hl) hp.2
      exact ⟨h1, h2.trans (del_of_ne _ ht)⟩
    · rw [if_neg hc]
      exact ih r hl hp.2

/-- A batch with the current pair of a task acknowledges the task. -/
theorem ackBatch_current {t l : String} (pairs : List (String × String)) :
    ∀ r : Redis Body, r.leases t = some l → (t, l) ∈ pairs → t ∈ (ackBatch pairs r).2 := by
  induction pairs with
  | nil => intro r _ h; cases h
  | cons p rest ih =>
    intro r hl hp
    obtain ⟨t', l'⟩ := p
    unfold ackBatch
    by_cases hc : r.leases t' = some l'
    · rw [if_pos hc]
      by_cases ht : t = t'
      · rw [ht]
        exact List.mem_cons_self
      · refine List.mem_cons_of_mem _ (ih _ ((del_of_ne _ ht).trans hl) ?_)
        rcases List.mem_cons.mp hp with heq | hmem
        · exact absurd (Prod.mk.inj heq).1 ht
        · exact hmem
    · rw [if_neg hc]
      refine ih r hl ?_
      rcases List.mem_cons.mp hp with heq | hmem
      · obtain ⟨rfl, rfl⟩ := Prod.mk.inj heq
        exact absurd hl hc
      · exact hmem

end Scripts

/-! ## The owner's schedule -/

section Schedule

variable {Body : Type}

/-- The owner's final call: an ACK batch with the pair, or a failure report. -/
def Op.endsLease (t l : String) : Op Body → Prop
  | .ackBatch pairs => (t, l) ∈ pairs
  | .requeueOrDead taskID leaseID _ _ => taskID = t ∧ leaseID = l
  | _ => False

/-- The Redis times of the heartbeats of `(t, l)`. -/
def heartbeatTimes (t l : String) : List (Call Body) → List ℚ
  | [] => []
  | c :: cs =>
    match c.op with
    | .heartbeat taskID leaseID _ =>
      if taskID = t ∧ leaseID = l then c.now :: heartbeatTimes t l cs
      else heartbeatTimes t l cs
    | _ => heartbeatTimes t l cs

/-- The first of the times is before `expiry`, and each next one is less than
`leaseDuration` after the one before. -/
def KeptAlive (expiry leaseDuration : ℚ) (times : List ℚ) : Prop :=
  (∀ x ∈ times.head?, x < expiry) ∧ times.IsChain fun a b => b < a + leaseDuration

instance (expiry leaseDuration : ℚ) (times : List ℚ) :
    Decidable (KeptAlive expiry leaseDuration times) :=
  inferInstanceAs (Decidable (_ ∧ _))

/-- After a heartbeat the remaining schedule keeps the renewed lease alive. -/
theorem KeptAlive.tail {expiry d x : ℚ} {times : List ℚ} (h : KeptAlive expiry d (x :: times)) :
    KeptAlive (x + d) d times := by
  obtain ⟨-, hchain⟩ := h
  cases times with
  | nil => exact ⟨nofun, .nil⟩
  | cons y rest =>
    obtain ⟨hxy, hrest⟩ := List.isChain_cons_cons.mp hchain
    refine ⟨?_, hrest⟩
    intro z hz
    obtain rfl : y = z := by simpa using hz
    exact hxy

theorem heartbeatTimes_mem {t l : String} {x : ℚ} {cs : List (Call Body)}
    (h : x ∈ heartbeatTimes t l cs) : ∃ c ∈ cs, c.now = x := by
  induction cs with
  | nil => cases h
  | cons c cs ih =>
    have hrest : x ∈ heartbeatTimes t l cs → ∃ c' ∈ c :: cs, c'.now = x := by
      intro hm
      obtain ⟨c', hc', hx⟩ := ih hm
      exact ⟨c', List.mem_cons_of_mem _ hc', hx⟩
    unfold heartbeatTimes at h
    split at h
    · split at h
      · rcases List.mem_cons.mp h with rfl | hm
        · exact ⟨c, List.mem_cons_self, rfl⟩
        · exact hrest hm
      · exact hrest h
    · exact hrest h

/-- With a non-decreasing clock, a command runs before the expiry of a lease that the
rest of the schedule keeps alive. -/
theorem KeptAlive.now_lt {t l : String} {expiry d final : ℚ} {c : Call Body}
    {cs : List (Call Body)} (h : KeptAlive expiry d (heartbeatTimes t l (c :: cs) ++ [final]))
    (hclock : (((c :: cs).map Call.now) ++ [final]).Pairwise (· ≤ ·)) : c.now < expiry := by
  have hge : ∀ x ∈ heartbeatTimes t l (c :: cs) ++ [final], c.now ≤ x := by
    rw [List.map_cons, List.cons_append, List.pairwise_cons] at hclock
    intro x hx
    rcases List.mem_append.mp hx with hm | hm
    · obtain ⟨c', hc', rfl⟩ := heartbeatTimes_mem hm
      rcases List.mem_cons.mp hc' with rfl | hmem
      · exact le_refl _
      · exact hclock.1 _ (List.mem_append_left _ (List.mem_map_of_mem hmem))
    · exact hclock.1 _ (List.mem_append_right _ hm)
  obtain ⟨hhead, -⟩ := h
  cases hl : heartbeatTimes t l (c :: cs) ++ [final] with
  | nil => simp at hl
  | cons x rest =>
    rw [hl] at hge hhead
    exact lt_of_le_of_lt (hge x List.mem_cons_self) (hhead x rfl)

end Schedule

/-! ## One command while the owner holds the lease -/

section Step

variable {Body : Type} [TaskCodec Body]

/-- The owner `l` holds task `t` until `expiry`. -/
structure HeldUntil (r : Redis Body) (t l : String) (expiry : ℚ) : Prop where
  lease : r.leases t = some l
  inflight : r.inflight t = some expiry

/-- The expiry after a command the owner may have sent. -/
def renewed (t l : String) (expiry : ℚ) (c : Call Body) : ℚ :=
  match c.op with
  | .heartbeat taskID leaseID d => if taskID = t ∧ leaseID = l then c.now + d else expiry
  | _ => expiry

/-- A recovery call before the expiry only reports the renewal. -/
theorem HeldUntil.recovery {r : Redis Body} {t l : String} {expiry now : ℚ}
    (h : HeldUntil r t l expiry) (hnow : now < expiry) (base cap : ℚ) :
    requeueOrDead now base cap t "" r = (r, some .renewed) := by
  simp [requeueOrDead, requeueGuard, h.inflight, hnow]

/-- A claim does not find a task that is held. -/
theorem HeldUntil.not_claimed {r : Redis Body} {log : List Event} {t l : String} {expiry : ℚ}
    (h : HeldUntil r t l expiry) (href : Refines r log) (leaseIDs : List String) (e : ℚ) :
    ∀ k ∈ (claimBatch leaseIDs e r).2, k.taskID ≠ t := by
  have hplace := (href.holds t).place_leased h.lease
  obtain ⟨hready, -, -⟩ := (href.holds t).leased_spec hplace
  obtain ⟨-, -, hpop⟩ := claimLoop_absent e leaseIDs r hready
  rintro k hk rfl
  exact hpop (List.of_mem_zip (claimBatch_mem hk).2).1

/-- **Step.** While the lease is not expired, no command of the core engine takes it
from its owner; only the owner's heartbeats move the expiry. -/
theorem HeldUntil.step {e : Engine Body} {c : Call Body} {t l : String} {expiry : ℚ}
    (h : HeldUntil e.redis t l expiry) (href : Refines e.redis e.log) (hok : CoreCall e c)
    (hnow : c.now < expiry) (hends : ¬ c.op.endsLease t l) :
    HeldUntil (e.exec c).redis t l (renewed t l expiry c) := by
  obtain ⟨now, op⟩ := c
  cases op with
  | routeBody a => exact ⟨h.lease, h.inflight⟩
  | routePush a clock =>
    simp only [Engine.exec, Redis.after, ForgeQueue.routePush, renewed]
    split <;> exact ⟨h.lease, h.inflight⟩
  | pause => exact ⟨h.lease, h.inflight⟩
  | resume => exact ⟨h.lease, h.inflight⟩
  | claimBatch leaseIDs e' =>
    have hplace := (href.holds t).place_leased h.lease
    obtain ⟨hready, -, -⟩ := (href.holds t).leased_spec hplace
    obtain ⟨h1, h2, -⟩ := claimLoop_absent e' leaseIDs e.redis hready
    simp only [Engine.exec, Redis.after, ForgeQueue.claimBatch, renewed]
    split
    · exact h
    · exact ⟨h1.trans h.lease, h2.trans h.inflight⟩
  | heartbeat taskID leaseID d =>
    simp only [Engine.exec, Redis.after, ForgeQueue.heartbeat, renewed]
    by_cases ht : taskID = t
    · subst ht
      by_cases hl : leaseID = l
      · subst hl
        rw [if_pos h.lease, if_pos ⟨rfl, rfl⟩]
        exact ⟨h.lease, put_self _ _ _⟩
      · -- somebody else's token is fenced
        have hc : e.redis.leases taskID ≠ some leaseID := by
          rw [h.lease]
          exact fun he => hl (Option.some.inj he).symm
        rw [if_neg hc, if_neg fun he => hl he.2]
        exact h
    · have hno : ¬ (taskID = t ∧ leaseID = l) := fun he => ht he.1
      rw [if_neg hno]
      split
      · exact ⟨h.lease, (put_of_ne _ _ (Ne.symm ht)).trans h.inflight⟩
      · exact h
  | ackBatch pairs =>
    obtain ⟨h1, h2⟩ := ackBatch_other pairs e.redis h.lease hends
    exact ⟨h1, h2.trans h.inflight⟩
  | requeueOrDead taskID leaseID base cap =>
    simp only [Engine.exec, Redis.after, renewed]
    by_cases ht : taskID = t
    · subst ht
      have hl : leaseID ≠ l := fun he => hends ⟨rfl, he⟩
      by_cases hrec : leaseID = ""
      · rw [hrec, h.recovery hnow]
        exact h
      · have hc : e.redis.leases taskID ≠ some leaseID := by
          rw [h.lease]
          exact fun he => hl (Option.some.inj he).symm
        simp only [ForgeQueue.requeueOrDead, requeueGuard, ne_eq, hrec, not_false_eq_true,
          if_true, if_neg hc]
        exact h
    · unfold ForgeQueue.requeueOrDead
      split
      · exact h
      · have hf := retryOrBury_frame now base cap taskID (e.redis.release taskID)
        refine ⟨?_, ?_⟩
        · rw [hf.leases]
          exact (del_of_ne _ (Ne.symm ht)).trans h.lease
        · rw [hf.inflight]
          exact (del_of_ne _ (Ne.symm ht)).trans h.inflight
  | promoteTask taskID =>
    simp only [Engine.exec, Redis.after, ForgeQueue.promoteTask, renewed]
    split
    · exact h
    · split
      · exact h
      · exact ⟨h.lease, h.inflight⟩
  | materialize _ _ _ => exact hok.elim
  | requeueTx _ => exact hok.elim
  | deleteTx _ => exact hok.elim
  | wipe => exact hok.elim

omit [TaskCodec Body] in
/-- One command uses up the part of the schedule it fulfils. -/
theorem KeptAlive.step {t l : String} {expiry d final : ℚ} {c : Call Body}
    {cs : List (Call Body)} (h : KeptAlive expiry d (heartbeatTimes t l (c :: cs) ++ [final]))
    (hdur : ∀ d', c.op = .heartbeat t l d' → d' = d) :
    KeptAlive (renewed t l expiry c) d (heartbeatTimes t l cs ++ [final]) := by
  obtain ⟨now, op⟩ := c
  cases op with
  | heartbeat taskID leaseID d' =>
    simp only [heartbeatTimes, renewed] at h ⊢
    by_cases heq : taskID = t ∧ leaseID = l
    · obtain ⟨rfl, rfl⟩ := heq
      rw [if_pos ⟨rfl, rfl⟩] at h ⊢
      rw [hdur d' rfl]
      exact h.tail
    · rw [if_neg heq] at h ⊢
      exact h
  | _ => exact h

/-- **Run.** After any prefix of the commands between claim and final call the owner
still holds the lease, and the rest of the schedule keeps it alive. -/
theorem HeldUntil.run {t l : String} {d final : ℚ} {e e' : Engine Body}
    {done rest : List (Call Body)} (hrun : EngineRun CoreCall e done e') :
    ∀ {expiry}, HeldUntil e.redis t l expiry → Refines e.redis e.log →
      (((done ++ rest).map Call.now) ++ [final]).Pairwise (· ≤ ·) →
      (∀ c ∈ done, ¬ c.op.endsLease t l ∧ ∀ d', c.op = .heartbeat t l d' → d' = d) →
      KeptAlive expiry d (heartbeatTimes t l (done ++ rest) ++ [final]) →
      ∃ expiry', HeldUntil e'.redis t l expiry' ∧ Refines e'.redis e'.log ∧
        KeptAlive expiry' d (heartbeatTimes t l rest ++ [final]) := by
  induction hrun with
  | nil =>
    intro expiry h href _ _ hal
    exact ⟨expiry, h, href, hal⟩
  | @cons s c s' cs s'' hok hst _ ih =>
    intro expiry h href hclock howner hal
    obtain rfl : s.exec c = s' := Option.some.inj hst
    obtain ⟨hends, hdur⟩ := howner c List.mem_cons_self
    have hnow : c.now < expiry := hal.now_lt hclock
    have href' : Refines (s.exec c).redis (s.exec c).log :=
      EngineRun.invariant Refines (fun _ _ hok => hok.allowed)
        (fun _ _ _ _ hok heff hr => hr.effect hok heff) (.cons hok rfl .nil) href
    refine ih (h.step href hok hnow hends) href' ?_ ?_ (hal.step hdur)
    · rw [List.cons_append, List.map_cons, List.cons_append, List.pairwise_cons] at hclock
      exact hclock.2
    · intro c' hc'
      exact howner c' (List.mem_cons_of_mem _ hc')

end Step

/-! ## The whole claim-to-final window -/

section Window

variable {Body : Type} [TaskCodec Body]

/-- The owner's final call is accepted: the task is in the reply of the ACK, or the
failure is recorded. -/
def Op.acceptedAt (now : ℚ) (t : String) (r : Redis Body) : Op Body → Prop
  | .ackBatch pairs => t ∈ (ForgeQueue.ackBatch pairs r).2
  | .requeueOrDead taskID leaseID base cap =>
    (ForgeQueue.requeueOrDead now base cap taskID leaseID r).2 = some .scheduled ∨
      (ForgeQueue.requeueOrDead now base cap taskID leaseID r).2 = some .dead
  | _ => False

/-- The final call of an owner that still holds the lease. -/
theorem HeldUntil.final {r : Redis Body} {log : List Event} {t l : String} {expiry : ℚ}
    (h : HeldUntil r t l expiry) (href : Refines r log) (hne : l ≠ "") {op : Op Body}
    (hop : op.endsLease t l) (now : ℚ) : op.acceptedAt now t r := by
  cases op with
  | ackBatch pairs => exact ackBatch_current pairs r h.lease hop
  | requeueOrDead taskID leaseID base cap =>
    obtain ⟨rfl, rfl⟩ := hop
    have hplace := (href.holds taskID).place_leased h.lease
    obtain ⟨_, -, -, -, hst, -⟩ := (href.holds taskID).retry hplace now base cap
    have hg : requeueGuard now taskID leaseID r = none := by
      rw [requeueGuard, if_pos hne, if_pos h.lease]
    simp only [Op.acceptedAt, requeueOrDead, hg]
    exact hst.symm
  | _ => exact hop.elim

/-- **A lease kept alive is never reclaimed.** The owner `l` of `t`, granted until
`expiry` by the claim call, heartbeats in time up to its final call. Then every
recovery call for `t` in between answers `renewed`, no claim in between returns `t`, and
the final call is accepted. -/
theorem kept_lease_never_reclaimed {before between : List (Call Body)}
    {claim final : Call Body} {e : Engine Body} {leaseIDs : List String} {t l : String}
    {expiry leaseDuration : ℚ}
    (hrun : EngineRun CoreCall .init (before ++ claim :: between) e)
    (hclock : ((before ++ claim :: between).map Call.now ++ [final.now]).Pairwise (· ≤ ·))
    (hclaim : claim.op = .claimBatch leaseIDs expiry)
    (hgrant : ∃ k ∈ (claimBatch leaseIDs expiry (Engine.init.execAll before).redis).2,
      k.taskID = t ∧ k.leaseID = l)
    (hne : l ≠ "")
    (howner : ∀ c ∈ between, ¬ c.op.endsLease t l ∧
      ∀ d, c.op = .heartbeat t l d → d = leaseDuration)
    (hfinal : final.op.endsLease t l)
    (halive : KeptAlive expiry leaseDuration (heartbeatTimes t l between ++ [final.now])) :
    (∀ done c rest, between = done ++ c :: rest →
      (∀ base cap, c.op = .requeueOrDead t "" base cap →
        (requeueOrDead c.now base cap t ""
          (Engine.init.execAll (before ++ claim :: done)).redis).2 = some .renewed) ∧
      (∀ tokens x, c.op = .claimBatch tokens x →
        ∀ k ∈ (claimBatch tokens x (Engine.init.execAll (before ++ claim :: done)).redis).2,
          k.taskID ≠ t)) ∧
    final.op.acceptedAt final.now t e.redis := by
  obtain ⟨e₀, hpre, hmid⟩ := hrun.split
  obtain rfl := EngineRun.eq_execAll hpre
  have href₀ := core_refines hpre
  cases hmid with
  | cons hok hst hbetween =>
    obtain rfl := Option.some.inj hst
    -- the claim grants the lease until its expiry
    have href₁ := core_refines (hpre.snoc hok rfl)
    have hheld : HeldUntil ((Engine.init.execAll before).exec claim).redis t l expiry := by
      obtain ⟨k, hk, rfl, rfl⟩ := hgrant
      obtain ⟨now, op⟩ := claim
      obtain rfl : op = _ := hclaim
      obtain ⟨hstate, hpair⟩ := claimBatch_mem hk
      have hcount : (Engine.init.execAll before).redis.immediate.count k.taskID ≤ 1 := by
        rw [(href₀.holds k.taskID).ready]
        split <;> omega
      obtain ⟨h1, h2⟩ := claimLoop_granted expiry leaseIDs _ hcount hpair
      rw [← hstate] at h1 h2
      exact ⟨h1, h2⟩
    have hclock' : (between.map Call.now ++ [final.now]).Pairwise (· ≤ ·) := by
      rw [List.map_append, List.append_assoc, List.pairwise_append] at hclock
      exact (List.pairwise_cons.mp hclock.2.1).2
    refine ⟨?_, ?_⟩
    · rintro done c rest rfl
      obtain ⟨e₂, hdone, -⟩ := hbetween.split
      have he₂ : e₂ = Engine.init.execAll (before ++ claim :: done) :=
        EngineRun.eq_execAll (hpre.append (.cons hok rfl hdone))
      obtain ⟨x, hx, href₂, hal⟩ := HeldUntil.run hdone hheld href₁ hclock'
        (fun c' hc' => howner c' (List.mem_append_left _ hc')) halive
      rw [he₂] at hx href₂
      have hnow : c.now < x := by
        refine hal.now_lt ?_
        rw [List.map_append, List.append_assoc, List.pairwise_append] at hclock'
        exact hclock'.2.1
      refine ⟨?_, ?_⟩
      · intro base cap _
        rw [hx.recovery hnow]
      · intro tokens x' _
        exact hx.not_claimed href₂ tokens x'
    · obtain ⟨x, hx, href₂, -⟩ := HeldUntil.run hbetween hheld href₁
        (by rw [List.append_nil]; exact hclock') howner (by rw [List.append_nil]; exact halive)
      exact hx.final href₂ hne hfinal final.now

/-- One heartbeat, then a recovery call after the first expiry. -/
def beatingCalls : List (Call JsonBody) :=
  [⟨20, .heartbeat "job" "L1" 30⟩, ⟨40, .requeueOrDead "job" "" 1 60⟩]

/-- The task is enqueued and then claimed until 31. -/
def enqueueCalls : List (Call JsonBody) :=
  [⟨0, .routeBody sampleArgs⟩, ⟨0, .routePush sampleArgs 0⟩]

theorem beatingCalls_run :
    EngineRun CoreCall .init (enqueueCalls ++ ⟨1, .claimBatch ["L1"] 31⟩ :: beatingCalls)
      (Engine.init.execAll (enqueueCalls ++ ⟨1, .claimBatch ["L1"] 31⟩ :: beatingCalls)) :=
  core_run_enqueue (.cons trivial rfl (.cons trivial rfl (.cons trivial rfl .nil)))

/-- The recovery call at 40, past the granted expiry 31, finds the lease renewed, and
the ACK at 49 is accepted. -/
theorem kept_lease_never_reclaimed_past_expiry :
    (requeueOrDead 40 1 60 "job" "" (Engine.init.execAll (enqueueCalls ++
        [⟨1, .claimBatch ["L1"] 31⟩, ⟨20, .heartbeat "job" "L1" 30⟩]) :
        Engine JsonBody).redis).2 = some .renewed ∧
      "job" ∈ (ackBatch [("job", "L1")] (Engine.init.execAll (enqueueCalls ++
        ⟨1, .claimBatch ["L1"] 31⟩ :: beatingCalls)).redis).2 := by
  have hgrant : ∃ k ∈ (claimBatch ["L1"] 31 (Engine.init.execAll enqueueCalls).redis).2,
      k.taskID = "job" ∧ k.leaseID = "L1" :=
    ⟨⟨"job", "L1", some (marshal (routeData sampleArgs))⟩, List.mem_cons_self, rfl, rfl⟩
  have halive : KeptAlive 31 30 (heartbeatTimes "job" "L1" beatingCalls ++ [49]) := by
    decide +kernel
  have howner : ∀ c ∈ beatingCalls, ¬ c.op.endsLease "job" "L1" ∧
      ∀ d, c.op = .heartbeat "job" "L1" d → d = 30 := by
    intro c hc
    rcases List.mem_cons.mp hc with rfl | hc
    · refine ⟨not_false, ?_⟩
      intro d hd
      injection hd with _ _ hd
      exact hd.symm
    · obtain rfl := List.mem_singleton.mp hc
      exact ⟨by simp [Op.endsLease], nofun⟩
  have hfinal : (Op.ackBatch [("job", "L1")] : Op JsonBody).endsLease "job" "L1" :=
    List.mem_cons_self
  obtain ⟨hbetween, hacc⟩ := kept_lease_never_reclaimed beatingCalls_run
    (show List.Pairwise _ (_ ++ [(⟨49, .ackBatch [("job", "L1")]⟩ : Call JsonBody).now]) by
      decide +kernel) rfl hgrant (by decide) howner hfinal halive
  exact ⟨(hbetween [_] _ [] rfl).1 1 60 rfl, hacc⟩

end Window

end ForgeQueue
