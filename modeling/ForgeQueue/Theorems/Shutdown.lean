import ForgeQueue.Model.Shutdown
import ForgeQueue.Theorems.BatchSettlement

/-!
# A pool stops

After `close(quit)` a worker claims once more at most, and that only if it had looked at
`quit` before. When `Stop` has seen all goroutines return, every batch that was ever claimed
has been worked off to its end, with the pool's context intact, and no trace of the pool is
left in the registry or comes back.
-/

namespace ForgeQueue

open Base

section

variable {Body : Type}

/-- The batch a move claims for worker `i`. -/
def CrewAct.claimOf (i : ℕ) : CrewAct Body → Option (BatchEnv Body × List (TaskClaim Body))
  | .claim j env claims => if j = i then some (env, claims) else none
  | _ => none

/-- What a move does in an iteration of worker `i`. -/
def CrewAct.workOf (i : ℕ) : CrewAct Body → Option BatchEvent
  | .work j _ e => if j = i then some e else none
  | _ => none

/-- The move is one of a goroutine that `wg` counts. -/
def CrewAct.ofGoroutine : CrewAct Body → Bool
  | .publish _ _ | .registrationTick | .registrationQuit | .check _ | .claim _ _ _
  | .work _ _ _ | .tick _ | .finish _ | .leave _ => true
  | _ => false

/-- Nobody else writes the keys of this pool; they may lapse or be removed. -/
def Aside (p : Pool) (s : Crew) : CrewAct Body → Prop
  | .others g => (p.id ∈ g.workers → p.id ∈ s.registry.workers) ∧
      (s.registry.doc p.id = none → g.doc p.id = none) ∧
      (s.registry.held p.id = none → g.held p.id = none)
  | _ => True

end

/-- What a worker has still to do in its iteration. -/
def WorkerPc.rest : WorkerPc → List BatchEvent
  | .batch rest => rest
  | _ => []

@[simp] theorem WorkerPc.rest_waiting : WorkerPc.waiting.rest = [] := rfl

@[simp] theorem WorkerPc.rest_claiming : WorkerPc.claiming.rest = [] := rfl

@[simp] theorem WorkerPc.rest_batch (rest : List BatchEvent) :
    (WorkerPc.batch rest).rest = rest := rfl

@[simp] theorem WorkerPc.rest_returned : WorkerPc.returned.rest = [] := rfl

@[simp] theorem WorkerPc.rest_ofRest (rest : List BatchEvent) :
    (WorkerPc.ofRest rest).rest = rest := by
  cases rest <;> rfl

@[simp] theorem WorkerPc.ofRest_ne_claiming (rest : List BatchEvent) :
    WorkerPc.ofRest rest ≠ .claiming := by
  cases rest <;> nofun

@[simp] theorem Crew.setWorker_workers (s : Crew) (i : ℕ) (pc : WorkerPc) :
    (s.setWorker i pc).workers = Function.update s.workers i pc := rfl

@[simp] theorem Crew.setTicker_workers (s : Crew) (t : Ticker) (pc : TickerPc) :
    (s.setTicker t pc).workers = s.workers := rfl

section

variable {Body : Type} [BodyCodec Body]

/-! ## One worker -/

/-- What a move does to worker `i`: nothing, or a step of its loop. -/
inductive WorkerMove (i : ℕ) (s s' : Crew) : CrewAct Body → Prop
  | same {a : CrewAct Body} (hwork : a.workOf i = none) (hclaim : a.claimOf i = none)
      (h : s'.workers i = s.workers i) : WorkerMove i s s' a
  | check (h : s.workers i = .waiting)
      (h' : s'.workers i = if s.quit then .returned else .claiming) :
      WorkerMove i s s' (.check i)
  | claim {env claims} (h : s.workers i = .claiming)
      (h' : s'.workers i = .ofRest (workerIteration env claims)) :
      WorkerMove i s s' (.claim i env claims)
  | work {now e rest} (h : s.workers i = .batch (e :: rest)) (h' : s'.workers i = .ofRest rest) :
      WorkerMove i s s' (.work i now e)

variable {p : Pool} {s s' : Crew} {a : CrewAct Body}

theorem workerMove_of_step (h : s.step p a = some s') (i : ℕ) : WorkerMove i s s' a := by
  cases a with
  | check j =>
    simp only [Crew.step] at h
    split at h
    · next hj =>
      obtain rfl := Option.some.inj h
      by_cases hij : j = i
      · subst hij
        exact .check hj (by simp)
      · exact .same rfl rfl (by simp [Ne.symm hij])
    · cases h
  | claim j env claims =>
    simp only [Crew.step] at h
    split at h
    · next hj =>
      obtain rfl := Option.some.inj h
      by_cases hij : j = i
      · subst hij
        exact .claim hj.1 (by simp)
      · exact .same rfl (by simp [CrewAct.claimOf, hij]) (by simp [Ne.symm hij])
    · cases h
  | work j now e =>
    simp only [Crew.step] at h
    split at h
    · next e' rest hj =>
      split at h
      · next he =>
        subst he
        obtain rfl := Option.some.inj h
        by_cases hij : j = i
        · subst hij
          exact .work hj (by simp)
        · exact .same (by simp [CrewAct.workOf, hij]) rfl (by simp [Ne.symm hij])
      · cases h
    · cases h
  | others g =>
    obtain rfl := Option.some.inj h
    exact .same rfl rfl rfl
  | _ =>
    simp only [Crew.step] at h
    split at h
    · obtain rfl := Option.some.inj h
      exact .same rfl rfl rfl
    · cases h

/-- What a move does to `Stop` and its signals. -/
inductive StopMove (p : Pool) (s : Crew) : CrewAct Body → Crew → Prop
  | goroutine {a : CrewAct Body} {s' : Crew} (hgo : a.ofGoroutine = true)
      (hstop : s'.stop = s.stop) (hquit : s'.quit = s.quit)
      (hbg : s'.bgCancelled = s.bgCancelled) : StopMove p s a s'
  | closeQuit (h : s.stop = .closeQuit) :
      StopMove p s .closeQuit { s with quit := true, stop := .bgCancel }
  | bgCancel (h : s.stop = .bgCancel) :
      StopMove p s .bgCancel { s with bgCancelled := true, stop := .wait }
  | drained (h : s.stop = .wait) (hall : s.allReturned p) :
      StopMove p s .drained { s with stop := .cancel }
  | timeout (h : s.stop = .wait) : StopMove p s .timeout { s with stop := .cancel }
  | cancel (h : s.stop = .cancel) :
      StopMove p s .cancel { s with cancelled := true, stop := .deregister }
  | deregister (h : s.stop = .deregister) :
      StopMove p s .deregister { s with
        stop := .returned
        registry := ForgeQueue.deregister p.id s.registry }
  | others (g : Registry) : StopMove p s (.others g) { s with registry := g }

theorem stopMove_of_step (h : s.step p a = some s') : StopMove p s a s' := by
  cases a with
  | work i now e =>
    simp only [Crew.step] at h
    split at h
    · split at h
      · obtain rfl := Option.some.inj h
        exact .goroutine rfl rfl rfl rfl
      · cases h
    · cases h
  | publish | registrationTick | registrationQuit | check | claim | tick | finish | leave =>
    simp only [Crew.step] at h
    split at h
    · obtain rfl := Option.some.inj h
      exact .goroutine rfl rfl rfl rfl
    · cases h
  | closeQuit =>
    obtain ⟨hs, h⟩ := Option.ite_none_right_eq_some.mp h
    obtain rfl := Option.some.inj h
    exact .closeQuit hs
  | bgCancel =>
    obtain ⟨hs, h⟩ := Option.ite_none_right_eq_some.mp h
    obtain rfl := Option.some.inj h
    exact .bgCancel hs
  | drained =>
    obtain ⟨hs, h⟩ := Option.ite_none_right_eq_some.mp h
    obtain rfl := Option.some.inj h
    exact .drained hs.1 hs.2
  | timeout =>
    obtain ⟨hs, h⟩ := Option.ite_none_right_eq_some.mp h
    obtain rfl := Option.some.inj h
    exact .timeout hs
  | cancel =>
    obtain ⟨hs, h⟩ := Option.ite_none_right_eq_some.mp h
    obtain rfl := Option.some.inj h
    exact .cancel hs
  | deregister =>
    obtain ⟨hs, h⟩ := Option.ite_none_right_eq_some.mp h
    obtain rfl := Option.some.inj h
    exact .deregister hs
  | others g =>
    obtain rfl := Option.some.inj h
    exact .others g

/-- The events of worker `i` so far and the rest of its iteration are its iterations. -/
def Balanced (i : ℕ) (acts : List (CrewAct Body)) (s : Crew) : Prop :=
  acts.filterMap (CrewAct.workOf i) ++ (s.workers i).rest =
    (acts.filterMap (CrewAct.claimOf i)).flatMap fun c => workerIteration c.1 c.2

theorem WorkerMove.balanced {i : ℕ} {acts : List (CrewAct Body)} (h : WorkerMove i s s' a)
    (hb : Balanced i acts s) : Balanced i (acts ++ [a]) s' := by
  unfold Balanced at hb ⊢
  rw [List.filterMap_append, List.filterMap_append, List.flatMap_append, ← hb]
  cases h with
  | same hwork hclaim h => simp [hwork, hclaim, h]
  | check h h' =>
    rw [h, h']
    cases s.quit <;> simp [List.filterMap_cons, CrewAct.workOf, CrewAct.claimOf]
  | claim h h' => simp [List.filterMap_cons, CrewAct.workOf, CrewAct.claimOf, h, h']
  | work h h' => simp [List.filterMap_cons, CrewAct.workOf, CrewAct.claimOf, h, h']

/-! ## After `close(quit)` -/

theorem Crew.quit_of_step (h : s.step p a = some s') (hq : s.quit = true) : s'.quit = true := by
  cases stopMove_of_step h with
  | goroutine _ _ hquit _ => exact hquit.trans hq
  | closeQuit _ => rfl
  | bgCancel _ | drained _ _ | timeout _ | cancel _ | deregister _ | others _ => exact hq

/-- The claims worker `i` may still make once `quit` is closed. -/
def claimsLeft (i : ℕ) (s : Crew) : ℕ := if s.workers i = .claiming then 1 else 0

theorem WorkerMove.claimsLeft_le {i : ℕ} (h : WorkerMove i s s' a) (hq : s.quit = true) :
    (a.claimOf i).toList.length + claimsLeft i s' ≤ claimsLeft i s := by
  unfold claimsLeft
  cases h with
  | same hwork hclaim h => simp [hclaim, h]
  | check h h' => simp [CrewAct.claimOf, h', hq]
  | claim h h' => simp [CrewAct.claimOf, h, h']
  | work h h' => simp [CrewAct.claimOf, h']

theorem claims_le_of_quit {ok : Crew → CrewAct Body → Prop} {acts : List (CrewAct Body)}
    (hrun : CrewRun p ok s acts s') (hq : s.quit = true) (i : ℕ) :
    (acts.filterMap (CrewAct.claimOf i)).length ≤ claimsLeft i s := by
  induction hrun with
  | nil => exact Nat.zero_le _
  | cons hok hst _ ih =>
    have hle := (workerMove_of_step hst i).claimsLeft_le hq
    have hrest := ih (Crew.quit_of_step hst hq)
    rw [List.filterMap_cons]
    cases hc : CrewAct.claimOf i _ with
    | none =>
      rw [hc] at hle
      simp only [Option.toList_none, List.length_nil] at hle ⊢
      omega
    | some c =>
      rw [hc] at hle
      simp only [Option.toList_some, List.length_singleton] at hle
      rw [List.length_cons]
      omega

/-! ## When every goroutine has returned -/

/-- No goroutine is left. -/
structure Out (s : Crew) : Prop where
  registration : s.registration = .returned
  workers : ∀ i, s.workers i = .returned
  tickers : ∀ t, s.tickers t = .returned

/-- Goroutines that have returned do nothing more, and nobody starts others. -/
theorem Out.step (h : Out s) (hst : s.step p a = some s') :
    a.ofGoroutine = false ∧ Out s' := by
  cases a with
  | publish now clock => simp [Crew.step, h.registration] at hst
  | registrationTick => simp [Crew.step, h.registration] at hst
  | registrationQuit => simp [Crew.step, h.registration] at hst
  | check i => simp [Crew.step, h.workers] at hst
  | claim i env claims => simp [Crew.step, h.workers] at hst
  | work i now e => simp [Crew.step, h.workers] at hst
  | tick t => simp [Crew.step, h.tickers] at hst
  | finish t => simp [Crew.step, h.tickers] at hst
  | leave t => simp [Crew.step, h.tickers] at hst
  | others g =>
    obtain rfl := Option.some.inj hst
    exact ⟨rfl, h.registration, h.workers, h.tickers⟩
  | _ =>
    simp only [Crew.step] at hst
    split at hst
    · obtain rfl := Option.some.inj hst
      exact ⟨rfl, h.registration, h.workers, h.tickers⟩
    · cases hst

theorem Out.run {ok : Crew → CrewAct Body → Prop} {acts : List (CrewAct Body)} (h : Out s)
    (hrun : CrewRun p ok s acts s') : ∀ a ∈ acts, a.ofGoroutine = false := by
  induction hrun with
  | nil => exact fun _ ha => by cases ha
  | cons _ hst _ ih =>
    obtain ⟨hhead, hout⟩ := h.step hst
    exact List.forall_mem_cons.mpr ⟨hhead, ih hout⟩

/-- Only the workers that were started ever do anything. -/
def Crew.Staffed (p : Pool) (s : Crew) : Prop :=
  ∀ i, p.concurrencyLimit ≤ i → s.workers i = .returned

theorem Crew.Staffed.step (h : s.Staffed p) (hst : s.step p a = some s') : s'.Staffed p := by
  intro i hi
  have hreturned := h i hi
  cases workerMove_of_step hst i with
  | same _ _ heq => exact heq.trans hreturned
  | check hw _ => rw [hw] at hreturned; cases hreturned
  | claim hw _ => rw [hw] at hreturned; cases hreturned
  | work hw _ => rw [hw] at hreturned; cases hreturned

omit [BodyCodec Body] in
theorem Crew.Staffed.out (h : s.Staffed p) (hall : s.allReturned p) : Out s where
  registration := hall.1
  workers i := by
    by_cases hi : i < p.concurrencyLimit
    · exact hall.2.1 i hi
    · exact h i (Nat.le_of_not_lt hi)
  tickers t := hall.2.2 t (by cases t <;> decide)

/-! ## `Stop` -/

/-- `Stop` is past its wait. -/
def StopPc.late : StopPc → Bool
  | .cancel | .deregister | .returned => true
  | _ => false

/-- No trace of the pool is in the registry. -/
structure Unregistered (p : Pool) (g : Registry) : Prop where
  workers : p.id ∉ g.workers
  doc : g.doc p.id = none
  held : g.held p.id = none

/-- How far `Stop` is, read off its moves. -/
structure StopTrace (p : Pool) (acts : List (CrewAct Body)) (s : Crew) : Prop where
  staffed : s.Staffed p
  early : s.stop.late = false → .drained ∉ acts ∧ .cancel ∉ acts ∧ .deregister ∉ acts
  drained : .drained ∈ acts → Out s
  gone : .drained ∈ acts → .deregister ∈ acts → Unregistered p s.registry

omit [BodyCodec Body] in
theorem StopTrace.init (p : Pool) (journal ready : Bool) (g : Registry) :
    StopTrace p ([] : List (CrewAct Body)) (Crew.start p journal ready g) where
  staffed i hi := if_neg (Nat.not_lt.mpr hi)
  early _ := ⟨by simp, by simp, by simp⟩
  drained h := by cases h
  gone h := by cases h

omit [BodyCodec Body] in
theorem unregistered_deregister (p : Pool) (g : Registry) : Unregistered p (deregister p.id g) where
  workers := Finset.notMem_erase _ _
  doc := del_self _ _
  held := del_self _ _

omit [BodyCodec Body] in
/-- What is not the last move has happened before. -/
theorem mem_before {acts : List (CrewAct Body)} {b : CrewAct Body} (h : b ∈ acts ++ [a])
    (hne : b ≠ a) : b ∈ acts :=
  (List.mem_append.mp h).resolve_right fun hb => hne (List.mem_singleton.mp hb)

/-- `Stop` moves on and leaves the goroutines and the registry alone. -/
theorem StopTrace.advance {acts : List (CrewAct Body)} (h : StopTrace p acts s)
    (hst : s.step p a = some s') (hregistry : s'.registry = s.registry)
    (hearly : s'.stop.late = false → s.stop.late = false)
    (hdrained : a ≠ .drained) (hcancel : a = .cancel → s'.stop.late = true)
    (hderegister : a ≠ .deregister) :
    StopTrace p (acts ++ [a]) s' := by
  have hmem : .drained ∈ acts ++ [a] → .drained ∈ acts :=
    fun hd => mem_before hd (Ne.symm hdrained)
  have hmem' : .deregister ∈ acts ++ [a] → .deregister ∈ acts :=
    fun hd => mem_before hd (Ne.symm hderegister)
  refine ⟨h.staffed.step hst, fun hlate => ?_, fun hd => ((h.drained (hmem hd)).step hst).2,
    fun hd hd' => ?_⟩
  · obtain ⟨h₁, h₂, h₃⟩ := h.early (hearly hlate)
    refine ⟨fun hd => h₁ (hmem hd), fun hc => h₂ (mem_before hc ?_), fun hd => h₃ (hmem' hd)⟩
    rintro rfl
    rw [hcancel rfl] at hlate
    cases hlate
  · rw [hregistry]
    exact h.gone (hmem hd) (hmem' hd')

/-- One move. -/
theorem StopTrace.step {acts : List (CrewAct Body)} (hok : Aside p s a)
    (hst : s.step p a = some s') (h : StopTrace p acts s) : StopTrace p (acts ++ [a]) s' := by
  have hstaffed := h.staffed.step hst
  cases stopMove_of_step hst with
  | goroutine hgo hstop _ _ =>
    -- a goroutine moves, so `wg` has not been down to zero yet
    have hnot : .drained ∉ acts ++ [a] := by
      intro hd
      have hquiet := ((h.drained (mem_before hd (by rintro rfl; cases hgo))).step hst).1
      rw [hgo] at hquiet
      cases hquiet
    refine ⟨hstaffed, fun hlate => ?_, fun hd => absurd hd hnot, fun hd => absurd hd hnot⟩
    rw [hstop] at hlate
    obtain ⟨-, hcancel, hderegister⟩ := h.early hlate
    exact ⟨hnot, fun hc => hcancel (mem_before hc (by rintro rfl; cases hgo)),
      fun hd => hderegister (mem_before hd (by rintro rfl; cases hgo))⟩
  | closeQuit hs => exact h.advance hst rfl (fun _ => by rw [hs]; rfl) nofun nofun nofun
  | bgCancel hs => exact h.advance hst rfl (fun _ => by rw [hs]; rfl) nofun nofun nofun
  | drained hs hall =>
    refine ⟨hstaffed, nofun, fun _ => hstaffed.out hall, fun _ hd => ?_⟩
    exact absurd (mem_before hd nofun) (h.early (by rw [hs]; rfl)).2.2
  | timeout _ => exact h.advance hst rfl nofun nofun nofun nofun
  | cancel _ => exact h.advance hst rfl nofun nofun (fun _ => rfl) nofun
  | deregister _ =>
    exact ⟨hstaffed, nofun, fun hd => ((h.drained (mem_before hd nofun)).step hst).2,
      fun _ _ => unregistered_deregister p s.registry⟩
  | others g =>
    refine ⟨hstaffed, fun hlate => ?_,
      fun hd => ((h.drained (mem_before hd nofun)).step hst).2, fun hd hd' => ?_⟩
    · obtain ⟨h₁, h₂, h₃⟩ := h.early hlate
      exact ⟨fun hd => h₁ (mem_before hd nofun), fun hc => h₂ (mem_before hc nofun),
        fun hd => h₃ (mem_before hd nofun)⟩
    · obtain ⟨hworkers, hdoc, hheld⟩ := h.gone (mem_before hd nofun) (mem_before hd' nofun)
      exact ⟨fun hm => hworkers (hok.1 hm), hok.2.1 hdoc, hok.2.2 hheld⟩

theorem stopTrace_of_run {journal ready : Bool} {g : Registry} {acts : List (CrewAct Body)}
    (hrun : CrewRun p (Aside p) (Crew.start p journal ready g) acts s) : StopTrace p acts s :=
  hrun.trace_invariant (StopTrace p) (fun _ _ _ _ hok hst h => h.step hok hst)
    (.init p journal ready g)

theorem balanced_of_run {journal ready : Bool} {g : Registry} {acts : List (CrewAct Body)}
    (hrun : CrewRun p (Aside p) (Crew.start p journal ready g) acts s) (i : ℕ) :
    Balanced i acts s := by
  refine hrun.trace_invariant (Balanced i)
    (fun _ _ _ _ _ hst h => (workerMove_of_step hst i).balanced h) ?_
  unfold Balanced Crew.start
  dsimp only
  split <;> rfl

/-- `Stop` cancels the pool's context after its wait. -/
theorem drained_before_cancel {journal ready : Bool} {g : Registry}
    {before after : List (CrewAct Body)}
    (hrun : CrewRun p (Aside p) (Crew.start p journal ready g) (before ++ .cancel :: after) s)
    (hdrained : .drained ∈ before ++ .cancel :: after) : .drained ∈ before := by
  rcases List.mem_append.mp hdrained with hd | hd
  · exact hd
  rcases List.mem_cons.mp hd with hd | hd
  · cases hd
  obtain ⟨early, late, rfl⟩ := List.append_of_mem hd
  rw [← List.cons_append, ← List.append_assoc] at hrun
  obtain ⟨s₁, hrun₁, hrun₂⟩ := hrun.split
  cases hrun₂ with
  | cons _ hst _ =>
    simp only [Crew.step] at hst
    split at hst
    · next hs =>
      have hnot := ((stopTrace_of_run hrun₁).early (by rw [hs.1]; rfl)).2.1
      exact absurd (List.mem_append_right before List.mem_cons_self) hnot
    · cases hst

/-- **A graceful shutdown.** After `close(quit)` a worker makes at most one more claim. If
`Stop` saw every goroutine return, then each worker has worked off every batch it ever
claimed, event by event to its end; no goroutine moves after the pool's context is cancelled;
and once the pool is deregistered, the registry has no trace of it, then and later. The
goroutines are those that `wg` counts; the heartbeats of a batch are not among them. -/
theorem graceful_shutdown (p : Pool) (journal ready : Bool) (g : Registry)
    {acts : List (CrewAct Body)} {s : Crew}
    (hrun : CrewRun p (Aside p) (Crew.start p journal ready g) acts s) :
    (∀ before after, acts = before ++ .closeQuit :: after →
      ∀ i, (after.filterMap (CrewAct.claimOf i)).length ≤ 1) ∧
    (.drained ∈ acts →
      (∀ i, acts.filterMap (CrewAct.workOf i) =
        (acts.filterMap (CrewAct.claimOf i)).flatMap fun c => workerIteration c.1 c.2) ∧
      (∀ before after, acts = before ++ .cancel :: after →
        ∀ a ∈ after, a.ofGoroutine = false) ∧
      (.deregister ∈ acts → Unregistered p s.registry)) := by
  refine ⟨?_, fun hdrained => ⟨fun i => ?_, ?_, (stopTrace_of_run hrun).gone hdrained⟩⟩
  · rintro before after rfl i
    obtain ⟨s₁, -, hrun₂⟩ := hrun.split
    cases hrun₂ with
    | cons _ hst hrest =>
      simp only [Crew.step] at hst
      split at hst
      · obtain rfl := Option.some.inj hst
        refine (claims_le_of_quit hrest rfl i).trans ?_
        unfold claimsLeft
        split <;> omega
      · cases hst
  · have hout := (stopTrace_of_run hrun).drained hdrained
    have hbalanced := balanced_of_run hrun i
    unfold Balanced at hbalanced
    rwa [hout.workers i, WorkerPc.rest_returned, List.append_nil] at hbalanced
  · rintro before after rfl
    have hbefore := drained_before_cancel hrun hdrained
    obtain ⟨s₁, hrun₁, hrun₂⟩ := hrun.split
    have hout := (stopTrace_of_run hrun₁).drained hbefore
    exact fun a ha => hout.run hrun₂ a (List.mem_cons_of_mem _ ha)

end

/-- A pool of one worker. -/
def soloPool : Pool := ⟨"pool", "host", "v1", 0, 1⟩

/-- The worker looks at `quit`, `Stop` closes it, and the worker claims. -/
def soloStop : List (CrewAct JsonBody) :=
  [.publish 0 0, .check 0, .closeQuit, .bgCancel,
    .claim 0 sampleEnv [emailClaim "good" "L1"]]

/-- Everybody finishes, and so does `Stop`. -/
def soloDrain : List (CrewAct JsonBody) :=
  (workerIteration sampleEnv [emailClaim "good" "L1"]).map (.work 0 0) ++
    [.check 0, .registrationQuit, .leave .recovery, .leave .promotion, .drained, .cancel,
      .deregister]

theorem aside_solo (a : CrewAct JsonBody) (ha : a ∈ soloStop ++ soloDrain) (s : Crew) :
    Aside soloPool s a := by
  simp only [soloStop, soloDrain, List.mem_append, List.mem_cons, List.not_mem_nil, or_false,
    List.mem_map] at ha
  rcases ha with (rfl | rfl | rfl | rfl | rfl) | ⟨e, -, rfl⟩ |
    rfl | rfl | rfl | rfl | rfl | rfl | rfl
  all_goals trivial

/-- The batch that was claimed at the last moment is worked off, and the pool is gone. -/
theorem graceful_shutdown_solo :
    ∃ s, CrewRun soloPool (Aside soloPool) (Crew.start soloPool false false .empty)
        (soloStop ++ soloDrain) s ∧
      (soloStop ++ soloDrain).filterMap (CrewAct.workOf 0) =
        ((soloStop ++ soloDrain).filterMap (CrewAct.claimOf 0)).flatMap
          (fun c => workerIteration c.1 c.2) ∧
      Unregistered soloPool s.registry := by
  obtain ⟨s, hrun, -⟩ := Run.exists_of_any (p := fun s => s.stop = .returned) aside_solo
    (show (runList (Crew.step soloPool) (Crew.start soloPool false false .empty)
      (soloStop ++ soloDrain)).any _ = true by decide +kernel)
  have hdrained : .drained ∈ soloStop ++ soloDrain := by simp [soloDrain]
  have hderegister : .deregister ∈ soloStop ++ soloDrain := by simp [soloDrain]
  obtain ⟨-, hdone⟩ := graceful_shutdown soloPool false false .empty hrun
  obtain ⟨hwork, -, hgone⟩ := hdone hdrained
  exact ⟨s, hrun, hwork 0, hgone hderegister⟩

section

variable {Body : Type} [BodyCodec Body] {p : Pool} {s s' : Crew} {a : CrewAct Body}

/-! ## `Stop` is never stuck -/

/-- `Stop` waits for the goroutines. An iteration under way has something left to do. -/
structure Closing (s : Crew) : Prop where
  quit : s.quit = true
  bgCancelled : s.bgCancelled = true
  stop : s.stop = .wait
  busy : ∀ i, s.workers i ≠ .batch []

/-- Whoever has returned stays away. -/
structure Homeward (s s' : Crew) : Prop where
  registration : s.registration = .returned → s'.registration = .returned
  workers : ∀ i, s.workers i = .returned → s'.workers i = .returned
  tickers : ∀ t, s.tickers t = .returned → s'.tickers t = .returned

omit [BodyCodec Body] in
theorem Homeward.refl (s : Crew) : Homeward s s := ⟨id, fun _ => id, fun _ => id⟩

omit [BodyCodec Body] in
theorem Homeward.trans {s₁ s₂ s₃ : Crew} (h : Homeward s₁ s₂) (h' : Homeward s₂ s₃) :
    Homeward s₁ s₃ :=
  ⟨h'.registration ∘ h.registration, fun i => h'.workers i ∘ h.workers i,
    fun t => h'.tickers t ∘ h.tickers t⟩

/-- Moves of the goroutines alone lead to a state with the property. -/
def Reaches (Body : Type) [BodyCodec Body] (p : Pool) (s : Crew) (goal : Crew → Prop) : Prop :=
  ∃ (acts : List (CrewAct Body)) (s' : Crew), CrewRun p (Aside p) s acts s' ∧ Closing s' ∧
    Homeward s s' ∧ goal s'

theorem Reaches.here {goal : Crew → Prop} (hc : Closing s) (hgoal : goal s) :
    Reaches Body p s goal :=
  ⟨[], s, .nil, hc, .refl s, hgoal⟩

theorem Reaches.step {goal : Crew → Prop} {s₁ : Crew} (hok : Aside p s a)
    (hst : s.step p a = some s₁) (hh : Homeward s s₁) (h : Reaches Body p s₁ goal) :
    Reaches Body p s goal := by
  obtain ⟨acts, s', hrun, hc, hh', hgoal⟩ := h
  exact ⟨a :: acts, s', .cons hok hst hrun, hc, hh.trans hh', hgoal⟩

/-- One goroutine after the other. -/
theorem Reaches.andThen {goal goal' : Crew → Prop} (h : Reaches Body p s goal)
    (h' : ∀ s₁, Closing s₁ → Homeward s s₁ → goal s₁ → Reaches Body p s₁ goal') :
    Reaches Body p s goal' := by
  obtain ⟨acts, s₁, hrun, hc, hh, hgoal⟩ := h
  obtain ⟨acts', s₂, hrun', hc', hh', hgoal'⟩ := h' s₁ hc hh hgoal
  exact ⟨acts ++ acts', s₂, hrun.append hrun', hc', hh.trans hh', hgoal'⟩

omit [BodyCodec Body] in
theorem homeward_setWorker {i : ℕ} {g : Registry} (pc : WorkerPc)
    (h : s.workers i ≠ .returned) : Homeward s ({ s with registry := g }.setWorker i pc) := by
  refine ⟨id, fun j hj => ?_, fun _ => id⟩
  have hne : j ≠ i := by
    rintro rfl
    exact h hj
  rw [Crew.setWorker_workers, Function.update_of_ne hne]
  exact hj

omit [BodyCodec Body] in
theorem Closing.setWorker (hc : Closing s) {i : ℕ} {g : Registry} {pc : WorkerPc}
    (h : pc ≠ .batch []) : Closing ({ s with registry := g }.setWorker i pc) := by
  refine ⟨hc.quit, hc.bgCancelled, hc.stop, fun j => ?_⟩
  rw [Crew.setWorker_workers]
  by_cases hj : j = i
  · rw [hj, Function.update_self]
    exact h
  · rw [Function.update_of_ne hj]
    exact hc.busy j

omit [BodyCodec Body] in
theorem WorkerPc.ofRest_ne_batch_nil (rest : List BatchEvent) : WorkerPc.ofRest rest ≠ .batch [] := by
  cases rest <;> nofun

/-- A worker in the `select` sees that `quit` is closed. -/
theorem waiting_returns (hc : Closing s) {i : ℕ} (h : s.workers i = .waiting) :
    Reaches Body p s fun s' => s'.workers i = .returned := by
  refine .step (a := .check i) trivial (if_pos h)
    (homeward_setWorker (g := s.registry) _ (by rw [h]; nofun)) (.here ?_ ?_)
  · exact hc.setWorker (g := s.registry) (by rw [hc.quit]; nofun)
  · rw [Crew.setWorker_workers, Function.update_self, hc.quit]
    rfl

/-- A worker in an iteration works it off. -/
theorem iteration_returns (rest : List BatchEvent) {i : ℕ} (hc : Closing s)
    (h : s.workers i = .ofRest rest) : Reaches Body p s fun s' => s'.workers i = .returned := by
  induction rest generalizing s with
  | nil => exact waiting_returns hc h
  | cons e rest ih =>
    have hbatch : s.workers i = .batch (e :: rest) := h
    have hst : s.step p (.work i 0 e : CrewAct Body) = some ({ s with
        registry := onRegistry p 0 e s.registry }.setWorker i (.ofRest rest)) := by
      simp [Crew.step, hbatch]
    refine .step (a := .work i 0 e) trivial hst (homeward_setWorker _ (by rw [hbatch]; nofun))
      (ih ?_ ?_)
    · exact hc.setWorker (WorkerPc.ofRest_ne_batch_nil rest)
    · rw [Crew.setWorker_workers, Function.update_self]

/-- The answers of a call that claims nothing. -/
def quietEnv (Body : Type) : BatchEnv Body where
  registered _ := false
  handlerOk _ := false
  requeueReply _ := none
  ackReply := none
  mapOrder := id
  mapOrder_perm _ := .refl _

/-- Every worker can return. -/
theorem worker_returns (hc : Closing s) (i : ℕ) :
    Reaches Body p s fun s' => s'.workers i = .returned := by
  cases h : s.workers i with
  | waiting => exact waiting_returns hc h
  | claiming =>
    refine .step (a := .claim i (quietEnv Body) []) trivial (if_pos ⟨h, fun _ => rfl⟩)
      (homeward_setWorker (g := s.registry) _ (by rw [h]; nofun)) (iteration_returns [] ?_ ?_)
    · exact hc.setWorker (g := s.registry) (WorkerPc.ofRest_ne_batch_nil _)
    · rw [Crew.setWorker_workers, Function.update_self]
      rfl
  | batch rest =>
    cases rest with
    | nil => exact absurd h (hc.busy i)
    | cons e rest => exact iteration_returns (e :: rest) hc h
  | returned => exact .here hc h

theorem workers_return (hc : Closing s) (n : ℕ) :
    Reaches Body p s fun s' => ∀ i < n, s'.workers i = .returned := by
  induction n with
  | zero => exact .here hc fun i hi => absurd hi (Nat.not_lt_zero i)
  | succ n ih =>
    refine ih.andThen fun s₁ hc₁ _ h₁ => (worker_returns hc₁ n).andThen fun s₂ hc₂ hh₂ h₂ =>
      .here hc₂ fun i hi => ?_
    rcases Nat.lt_succ_iff_lt_or_eq.mp hi with hi | rfl
    · exact hh₂.workers i (h₁ i hi)
    · exact h₂

omit [BodyCodec Body] in
@[simp] theorem Crew.setTicker_tickers (s : Crew) (t : Ticker) (pc : TickerPc) :
    (s.setTicker t pc).tickers = Function.update s.tickers t pc := rfl

omit [BodyCodec Body] in
theorem homeward_setTicker {t : Ticker} (pc : TickerPc) (h : s.tickers t ≠ .returned) :
    Homeward s (s.setTicker t pc) := by
  refine ⟨id, fun _ => id, fun t' ht' => ?_⟩
  have hne : t' ≠ t := by
    rintro rfl
    exact h ht'
  rw [Crew.setTicker_tickers, Function.update_of_ne hne]
  exact ht'

omit [BodyCodec Body] in
theorem Closing.setTicker (hc : Closing s) (t : Ticker) (pc : TickerPc) :
    Closing (s.setTicker t pc) :=
  ⟨hc.quit, hc.bgCancelled, hc.stop, hc.busy⟩

omit [BodyCodec Body] in
theorem Closing.signal (hc : Closing s) (t : Ticker) : s.signal t = true := by
  cases t with
  | recovery | promotion => exact hc.quit
  | reconciler | sampler => exact hc.bgCancelled

theorem ticker_leaves (hc : Closing s) {t : Ticker} (h : s.tickers t = .waiting) :
    Reaches Body p s fun s' => s'.tickers t = .returned := by
  refine .step (a := .leave t) trivial (if_pos ⟨h, hc.signal t⟩)
    (homeward_setTicker _ (by rw [h]; nofun)) (.here (hc.setTicker t _) ?_)
  rw [Crew.setTicker_tickers, Function.update_self]

/-- Every loop can return. -/
theorem ticker_returns (hc : Closing s) (t : Ticker) :
    Reaches Body p s fun s' => s'.tickers t = .returned := by
  cases h : s.tickers t with
  | waiting => exact ticker_leaves hc h
  | round =>
    refine .step (a := .finish t) trivial (if_pos h) (homeward_setTicker _ (by rw [h]; nofun))
      (ticker_leaves (hc.setTicker t _) ?_)
    rw [Crew.setTicker_tickers, Function.update_self]
  | returned => exact .here hc h

theorem registration_leaves (hc : Closing s) (h : s.registration = .waiting) :
    Reaches Body p s fun s' => s'.registration = .returned :=
  .step (a := .registrationQuit) trivial (if_pos ⟨h, hc.quit⟩)
    ⟨fun _ => rfl, fun _ => id, fun _ => id⟩
    (.here ⟨hc.quit, hc.bgCancelled, hc.stop, hc.busy⟩ rfl)

theorem registration_returns (hc : Closing s) :
    Reaches Body p s fun s' => s'.registration = .returned := by
  cases h : s.registration with
  | waiting => exact registration_leaves hc h
  | publishing =>
    refine .step (a := .publish 0 0) trivial (if_pos h) ⟨fun hr => ?_, fun _ => id, fun _ => id⟩
      (registration_leaves ⟨hc.quit, hc.bgCancelled, hc.stop, hc.busy⟩ rfl)
    rw [h] at hr
    cases hr
  | returned => exact .here hc h

/-- All of them. -/
theorem all_return (hc : Closing s) : Reaches Body p s fun s' => s'.allReturned p := by
  refine (workers_return hc p.concurrencyLimit).andThen fun s₁ hc₁ _ h₁ =>
    (registration_returns hc₁).andThen fun s₂ hc₂ hh₂ h₂ =>
    (ticker_returns hc₂ .recovery).andThen fun s₃ hc₃ hh₃ h₃ =>
    (ticker_returns hc₃ .promotion).andThen fun s₄ hc₄ hh₄ h₄ =>
    (ticker_returns hc₄ .reconciler).andThen fun s₅ hc₅ hh₅ h₅ =>
    (ticker_returns hc₅ .sampler).andThen fun s₆ hc₆ hh₆ h₆ => .here hc₆ ⟨?_, fun i hi => ?_, ?_⟩
  · exact hh₆.registration (hh₅.registration (hh₄.registration (hh₃.registration h₂)))
  · have hhome := hh₂.trans (hh₃.trans (hh₄.trans (hh₅.trans hh₆)))
    exact hhome.workers i (h₁ i hi)
  · simp only [List.mem_cons, List.not_mem_nil, or_false, forall_eq_or_imp, forall_eq]
    have hhome₄ := hh₄.trans (hh₅.trans hh₆)
    exact ⟨hhome₄.tickers _ h₃, (hh₅.trans hh₆).tickers _ h₄, hh₆.tickers _ h₅, h₆⟩

/-- What holds of the signals along the way to `Stop`'s wait. -/
structure Signalled (s : Crew) : Prop where
  quit : s.stop ≠ .closeQuit → s.quit = true
  bgCancelled : s.stop ≠ .closeQuit → s.stop ≠ .bgCancel → s.bgCancelled = true
  busy : ∀ i, s.workers i ≠ .batch []

theorem Signalled.step (h : Signalled s) (hst : s.step p a = some s') : Signalled s' := by
  have hbusy : ∀ i, s'.workers i ≠ .batch [] := by
    intro i
    cases workerMove_of_step hst i with
    | same _ _ heq =>
      rw [heq]
      exact h.busy i
    | check _ h' =>
      rw [h']
      cases s.quit <;> nofun
    | claim _ h' =>
      rw [h']
      exact WorkerPc.ofRest_ne_batch_nil _
    | work _ h' =>
      rw [h']
      exact WorkerPc.ofRest_ne_batch_nil _
  cases stopMove_of_step hst with
  | goroutine _ hstop hquit hbg =>
    refine ⟨?_, ?_, hbusy⟩
    · rw [hstop, hquit]
      exact h.quit
    · rw [hstop, hbg]
      exact h.bgCancelled
  | closeQuit _ => exact ⟨fun _ => rfl, fun _ hne => absurd rfl hne, hbusy⟩
  | bgCancel hs => exact ⟨fun _ => h.quit (by rw [hs]; nofun), fun _ _ => rfl, hbusy⟩
  | drained hs _ | timeout hs | cancel hs | deregister hs =>
    exact ⟨fun _ => h.quit (by rw [hs]; nofun),
      fun _ _ => h.bgCancelled (by rw [hs]; nofun) (by rw [hs]; nofun), hbusy⟩
  | others _ => exact ⟨h.quit, h.bgCancelled, hbusy⟩

/-- **`Stop` is never stuck.** Whenever it waits for the goroutines, whatever they are in the
middle of, there is a way for all of them to return, and `Stop` gets through without its
timeout. -/
theorem stop_never_stuck (p : Pool) (journal ready : Bool) (g : Registry)
    {acts : List (CrewAct Body)} {s : Crew}
    (hrun : CrewRun p (Aside p) (Crew.start p journal ready g) acts s) (hwait : s.stop = .wait) :
    ∃ (more : List (CrewAct Body)) (s' : Crew),
      CrewRun p (Aside p) (Crew.start p journal ready g)
        (acts ++ more ++ [.drained, .cancel, .deregister]) s' ∧ s'.stop = .returned := by
  have hsignalled : Signalled s := by
    refine hrun.invariant Signalled (fun _ _ _ _ hst h => h.step hst) ⟨?_, ?_, fun i => ?_⟩
    · exact fun hne => absurd rfl hne
    · exact fun hne => absurd rfl hne
    · unfold Crew.start
      dsimp only
      split <;> nofun
  have hclosing : Closing s :=
    ⟨hsignalled.quit (by rw [hwait]; nofun),
      hsignalled.bgCancelled (by rw [hwait]; nofun) (by rw [hwait]; nofun), hwait,
      hsignalled.busy⟩
  have hreturn : Reaches Body p s fun s' => s'.allReturned p := all_return hclosing
  obtain ⟨more, s₁, hmore, hc, -, hall⟩ := hreturn
  refine ⟨more, _, (hrun.append hmore).append (.cons trivial (if_pos ⟨hc.stop, hall⟩) <|
    .cons trivial rfl <| .cons trivial rfl .nil), rfl⟩

end

/-- `Stop` waits while the worker has a batch in its hands. -/
theorem stop_never_stuck_solo :
    ∃ s, CrewRun soloPool (Aside soloPool) (Crew.start soloPool false false .empty) soloStop s ∧
      ∃ (more : List (CrewAct JsonBody)) (s' : Crew),
        CrewRun soloPool (Aside soloPool) (Crew.start soloPool false false .empty)
          (soloStop ++ more ++ [.drained, .cancel, .deregister]) s' ∧ s'.stop = .returned := by
  obtain ⟨s, hrun, hwait⟩ := Run.exists_of_any (p := fun s => s.stop = .wait)
    (fun a ha => aside_solo a (List.mem_append_left _ ha))
    (show (runList (Crew.step soloPool) (Crew.start soloPool false false .empty)
      soloStop).any _ = true by decide +kernel)
  exact ⟨s, hrun, stop_never_stuck soloPool false false .empty hrun
    (of_decide_eq_true hwait)⟩

end ForgeQueue
