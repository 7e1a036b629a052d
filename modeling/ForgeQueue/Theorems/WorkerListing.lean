import Mathlib.Tactic.NormNum
import ForgeQueue.Model.JsonBody
import ForgeQueue.Model.Registry

/-!
# Who is on the workers page

The page removes pools whose document it did not find, with two commands: it reads the
document and removes the member. Between the two a pool may publish. That is harmless as
long as documents do not lapse: a pool that publishes in time is never removed and is on
every page, and a pool that has stopped publishing is on no page and is removed by the
next one.
-/

namespace ForgeQueue

open Base

/-! ## What one command of a call does -/

/-- The pools a call has yet to read. -/
def ReadPc.todo : ReadPc → List String
  | .start => []
  | .doc todo _ => todo
  | .srem _ todo _ => todo
  | .held _ _ todo _ => todo
  | .lease _ _ _ todo _ => todo
  | .sremTask _ _ _ _ todo _ => todo
  | .body _ _ _ _ _ todo _ => todo
  | .score _ _ _ _ _ _ todo _ => todo

/-- The entry a call is filling in. -/
def ReadPc.entry : ReadPc → Option WorkerView
  | .start | .doc _ _ | .srem _ _ _ => none
  | .held _ w _ _ => some w
  | .lease _ _ w _ _ => some w
  | .sremTask _ _ _ w _ _ => some w
  | .body _ _ _ _ w _ _ => some w
  | .score _ _ _ _ _ w _ _ => some w

/-- The entries a call has completed. -/
def ReadPc.out : ReadPc → List WorkerView
  | .start => []
  | .doc _ out => out
  | .srem _ _ out => out
  | .held _ _ _ out => out
  | .lease _ _ _ _ out => out
  | .sremTask _ _ _ _ _ out => out
  | .body _ _ _ _ _ _ out => out
  | .score _ _ _ _ _ _ _ out => out

/-- **Inversion.** What a command of a call does to the registry and to the pools it has
read, is reading and will read. -/
inductive ReadMove (now clock : ℚ) (g : Registry) : ReadPc → Registry → ReadPc → Prop
  | list {ids} : Listing g.workers ids → ReadMove now clock g .start g (.doc ids [])
  | lapsed {id todo out} : Timed.read now (g.doc id) = none →
      ReadMove now clock g (.doc (id :: todo) out) g (.srem id todo out)
  | found {id todo out m} : Timed.read now (g.doc id) = some m →
      ReadMove now clock g (.doc (id :: todo) out) g (.held id (m.view clock) todo out)
  | sweep {id todo out} : ReadMove now clock g (.srem id todo out)
      { g with workers := g.workers.erase id } (.doc todo out)
  | filled {key w todo out} :
      ReadMove now clock g (.lease key [] w todo out) g (.doc todo (out ++ [w]))
  | filling {pc pc' g' w w'} : g'.workers = g.workers → g'.doc = g.doc →
      pc.todo = pc'.todo → pc.out = pc'.out → pc.entry = some w → pc'.entry = some w' →
      w'.id = w.id → w'.status = w.status → ReadMove now clock g pc g' pc'

section Read

variable {Body : Type} [BodyCodec Body] {now clock : ℚ} {ids : List String} {r : Redis Body}
  {g g' : Registry} {pc pc' : ReadPc}

theorem dropHeld_workers (now : ℚ) (id : String) (taskIDs : List String) (g : Registry) :
    (dropHeld now id taskIDs g).workers = g.workers := by
  unfold dropHeld
  split
  · rfl
  · split <;> rfl

theorem dropHeld_doc (now : ℚ) (id : String) (taskIDs : List String) (g : Registry) :
    (dropHeld now id taskIDs g).doc = g.doc := by
  unfold dropHeld
  split
  · rfl
  · split <;> rfl

theorem readStep_move (h : readStep now clock ids r g pc = some (g', pc')) :
    ReadMove now clock g pc g' pc' := by
  unfold readStep at h
  split at h
  · split at h
    · obtain ⟨rfl, rfl⟩ := Prod.mk.inj (Option.some.inj h)
      exact .list ‹_›
    · cases h
  · cases h
  · split at h
    · obtain ⟨rfl, rfl⟩ := Prod.mk.inj (Option.some.inj h)
      exact .lapsed ‹_›
    · obtain ⟨rfl, rfl⟩ := Prod.mk.inj (Option.some.inj h)
      exact .found ‹_›
  · obtain ⟨rfl, rfl⟩ := Prod.mk.inj (Option.some.inj h)
    exact .sweep
  · split at h
    · obtain ⟨rfl, rfl⟩ := Prod.mk.inj (Option.some.inj h)
      exact .filling rfl rfl rfl rfl rfl rfl rfl rfl
    · cases h
  · obtain ⟨rfl, rfl⟩ := Prod.mk.inj (Option.some.inj h)
    exact .filled
  · split at h
    · obtain ⟨rfl, rfl⟩ := Prod.mk.inj (Option.some.inj h)
      exact .filling rfl rfl rfl rfl rfl rfl rfl rfl
    · obtain ⟨rfl, rfl⟩ := Prod.mk.inj (Option.some.inj h)
      exact .filling rfl rfl rfl rfl rfl rfl rfl rfl
  · obtain ⟨rfl, rfl⟩ := Prod.mk.inj (Option.some.inj h)
    exact .filling (dropHeld_workers _ _ _ _) (dropHeld_doc _ _ _ _) rfl rfl rfl rfl rfl rfl
  · obtain ⟨rfl, rfl⟩ := Prod.mk.inj (Option.some.inj h)
    exact .filling rfl rfl rfl rfl rfl rfl rfl rfl
  · obtain ⟨rfl, rfl⟩ := Prod.mk.inj (Option.some.inj h)
    exact .filling rfl rfl rfl rfl rfl rfl rfl rfl

/-! Its consequences, each read off the cases. -/

theorem ReadMove.doc_eq (h : ReadMove now clock g pc g' pc') : g'.doc = g.doc := by
  cases h with
  | filling _ hd => exact hd
  | _ => rfl

/-- Only the command a call has decided on removes a pool. -/
theorem ReadMove.mem_workers (h : ReadMove now clock g pc g' pc') {id : String}
    (hne : ∀ todo out, pc ≠ .srem id todo out) : id ∈ g'.workers ↔ id ∈ g.workers := by
  cases h with
  | filling hw _ => rw [hw]
  | @sweep x todo out =>
    have hx : id ≠ x := by
      rintro rfl
      exact hne todo out rfl
    simp [hx]
  | _ => rfl

theorem ReadMove.workers_subset (h : ReadMove now clock g pc g' pc') :
    g'.workers ⊆ g.workers := by
  cases h with
  | filling hw _ => rw [hw]
  | sweep => exact Finset.erase_subset _ _
  | _ => exact Finset.Subset.refl _

/-- A pool that is yet to be read was so before, or the call has just listed the members. -/
theorem ReadMove.mem_todo (h : ReadMove now clock g pc g' pc') {id : String}
    (hm : id ∈ pc'.todo) : id ∈ pc.todo ∨ id ∈ g.workers := by
  cases h with
  | list hl => exact .inr (hl.2 ▸ List.mem_toFinset.mpr hm)
  | lapsed _ => exact .inl (List.mem_cons_of_mem _ hm)
  | found _ => exact .inl (List.mem_cons_of_mem _ hm)
  | sweep => exact .inl hm
  | filled => exact .inl hm
  | filling _ _ ht => exact .inl (ht ▸ hm)

/-- A call decides to remove a pool it has to read and finds no document of. -/
theorem ReadMove.lapsed_of_srem {id : String} {todo : List String} {out : List WorkerView}
    (h : ReadMove now clock g pc g' (.srem id todo out)) :
    id ∈ pc.todo ∧ Timed.read now (g.doc id) = none := by
  cases h with
  | lapsed hnone => exact ⟨List.mem_cons_self, hnone⟩
  | filling _ _ _ _ _ hw' => cases hw'

end Read

/-! ## What one step does -/

/-- The pool signs off. -/
def FloorAct.signsOff {Body : Type} (id : String) : FloorAct Body → Bool
  | .deregister x => x == id
  | _ => false

/-- The dashboard's clock at a command of a call. -/
def FloorAct.readClock {Body : Type} : FloorAct Body → Option ℚ
  | .next _ clock _ => some clock
  | _ => none

/-- The pool that publishes. -/
def FloorAct.publisher {Body : Type} : FloorAct Body → Option String
  | .publish p _ => some p.id
  | _ => none

section Steps

variable {Body : Type} [BodyCodec Body]

/-- **Inversion.** A pool publishes or signs off, a call moves, or the members and the
documents stay as they are. -/
theorem Floor.step_cases {s s' : Floor Body} {c : FloorCall Body} (h : s.step c = some s') :
    s'.time = c.now ∧
    ((∃ p clock, c.act = .publish p clock ∧
        s'.registry = publishMeta c.now clock p s.registry ∧ s'.calls = s.calls) ∨
      (∃ id, c.act = .deregister id ∧
        s'.registry = ForgeQueue.deregister id s.registry ∧ s'.calls = s.calls) ∨
      (∃ k, c.act = .request k ∧ s'.registry = s.registry ∧ s.calls k = none ∧
        s'.calls = put s.calls k .start) ∨
      (∃ k clock ids pc pc', c.act = .next k clock ids ∧ s.calls k = some pc ∧
        ReadMove c.now clock s.registry pc s'.registry pc' ∧ s'.calls = put s.calls k pc') ∨
      (s'.registry.workers = s.registry.workers ∧ s'.registry.doc = s.registry.doc ∧
        s'.calls = s.calls)) := by
  unfold Floor.step at h
  split at h
  · rename_i p clock hact
    obtain rfl := Option.some.inj h
    exact ⟨rfl, .inl ⟨p, clock, hact, rfl, rfl⟩⟩
  · rename_i id hact
    obtain rfl := Option.some.inj h
    exact ⟨rfl, .inr (.inl ⟨id, hact, rfl, rfl⟩)⟩
  · rename_i id taskIDs hact
    obtain rfl := Option.some.inj h
    refine ⟨rfl, .inr (.inr (.inr (.inr ⟨?_, ?_, rfl⟩)))⟩ <;>
      simp only [markLeases] <;> split <;> rfl
  · rename_i id taskIDs hact
    obtain rfl := Option.some.inj h
    refine ⟨rfl, .inr (.inr (.inr (.inr ⟨?_, ?_, rfl⟩)))⟩ <;>
      simp only [clearLeases] <;> split
    · rfl
    · exact dropHeld_workers _ _ _ _
    · rfl
    · exact dropHeld_doc _ _ _ _
  · rename_i op hact
    obtain rfl := Option.some.inj h
    exact ⟨rfl, .inr (.inr (.inr (.inr ⟨rfl, rfl, rfl⟩)))⟩
  · rename_i k hact
    split at h
    · cases h
    · rename_i hnone
      obtain rfl := Option.some.inj h
      exact ⟨rfl, .inr (.inr (.inl
        ⟨k, hact, rfl, Option.not_isSome_iff_eq_none.mp hnone, rfl⟩))⟩
  · rename_i k clock ids hact
    obtain ⟨pc, hpc, hmap⟩ := Option.bind_eq_some_iff.mp h
    obtain ⟨next, hnext, rfl⟩ := Option.map_eq_some_iff.mp hmap
    exact ⟨rfl, .inr (.inr (.inr (.inl
      ⟨k, clock, ids, pc, next.2, hact, hpc, readStep_move hnext, rfl⟩)))⟩

/-! ## A pool that publishes in time -/

/-- No step comes later than the pool's document lasts, the pool does not sign off, and the
dashboard's clock is at most 25 seconds past the pool's last heartbeat. -/
def InTime (id : String) (s : Floor Body) (c : FloorCall Body) : Prop :=
  c.act.signsOff id = false ∧ ∀ t ∈ s.registry.doc id, c.now ≤ t.deadline ∧
    ∀ clock ∈ c.act.readClock, clock - t.value.lastHeartbeat ≤ 25

instance (id : String) (s : Floor Body) (c : FloorCall Body) : Decidable (InTime id s c) :=
  inferInstanceAs (Decidable (_ ∧ _))

/-- The pool is a member exactly if it has a document, which is its own and has not lapsed,
and no call is about to remove it. -/
structure Enrolled (id : String) (s : Floor Body) : Prop where
  member : ∀ t, s.registry.doc id = some t →
    id ∈ s.registry.workers ∧ t.value.id = id ∧ s.time ≤ t.deadline
  known : id ∈ s.registry.workers → (s.registry.doc id).isSome = true
  listed : ∀ k pc, s.calls k = some pc → id ∈ pc.todo → (s.registry.doc id).isSome = true
  safe : ∀ k todo out, s.calls k ≠ some (.srem id todo out)

omit [BodyCodec Body] in
theorem Enrolled.init (id : String) : Enrolled id (Floor.init : Floor Body) where
  member t h := by cases h
  known h := by cases h
  listed k pc h := by cases h
  safe k todo out h := by cases h

omit [BodyCodec Body] in
/-- A step that leaves the member, its document and the calls alone. -/
theorem Enrolled.congr {id : String} {s s' : Floor Body} (h : Enrolled id s)
    (hw : id ∈ s'.registry.workers ↔ id ∈ s.registry.workers)
    (hd : s'.registry.doc id = s.registry.doc id)
    (hc : ∀ k pc, s'.calls k = some pc → s.calls k = some pc ∨ pc = .start)
    (ht : ∀ t, s.registry.doc id = some t → s'.time ≤ t.deadline) : Enrolled id s' where
  member t htd := by
    rw [hd] at htd
    obtain ⟨h1, h2, -⟩ := h.member t htd
    exact ⟨hw.mpr h1, h2, ht t htd⟩
  known hm := by
    rw [hd]
    exact h.known (hw.mp hm)
  listed k pc hpc hm := by
    rw [hd]
    rcases hc k pc hpc with hold | rfl
    · exact h.listed k pc hold hm
    · cases hm
  safe k todo out hpc := by
    rcases hc k _ hpc with hold | hstart
    · exact h.safe k todo out hold
    · cases hstart

/-- A read at a time up to its deadline finds a document. -/
theorem Timed.read_of_le {α : Type} {now : ℚ} {t : Timed α} (h : now ≤ t.deadline) :
    Timed.read now (some t) = some t.value := by
  simp [Timed.read, h]

omit [BodyCodec Body] in
/-- A call that moves has nothing to do with a pool that publishes in time but to list it. -/
theorem Enrolled.move {id : String} {s s' : Floor Body} {now clock : ℚ} {k : ℕ}
    {pc pc' : ReadPc} (h : Enrolled id s) (hpc : s.calls k = some pc)
    (hmove : ReadMove now clock s.registry pc s'.registry pc')
    (hcalls : s'.calls = put s.calls k pc')
    (hlast : ∀ t, s.registry.doc id = some t → now ≤ t.deadline)
    (htime : s'.time = now) : Enrolled id s' := by
  have hw : id ∈ s'.registry.workers ↔ id ∈ s.registry.workers :=
    hmove.mem_workers fun todo out heq => h.safe k todo out (heq ▸ hpc)
  have htodo : id ∈ pc'.todo → (s.registry.doc id).isSome = true := fun hm =>
    (hmove.mem_todo hm).elim (h.listed k pc hpc) h.known
  have hsafe : ∀ todo out, pc' ≠ .srem id todo out := by
    rintro todo out rfl
    -- it was to be read, so it has a document, and the document is there
    obtain ⟨hmem, hnone⟩ := hmove.lapsed_of_srem
    obtain ⟨t, ht⟩ := Option.isSome_iff_exists.mp (h.listed k pc hpc hmem)
    rw [ht, Timed.read_of_le (hlast t ht)] at hnone
    cases hnone
  refine ⟨?_, ?_, ?_, ?_⟩
  · intro t ht
    rw [hmove.doc_eq] at ht
    obtain ⟨h1, h2, -⟩ := h.member t ht
    exact ⟨hw.mpr h1, h2, htime ▸ hlast t ht⟩
  · intro hm
    rw [hmove.doc_eq]
    exact h.known (hw.mp hm)
  · intro k' pc₁ hk' hm
    rw [hmove.doc_eq]
    rw [hcalls] at hk'
    rcases put_eq_some.mp hk' with ⟨-, rfl⟩ | ⟨-, hk'⟩
    · exact htodo hm
    · exact h.listed k' pc₁ hk' hm
  · intro k' todo out hk'
    rw [hcalls] at hk'
    rcases put_eq_some.mp hk' with ⟨-, heq⟩ | ⟨-, hk'⟩
    · exact hsafe todo out heq
    · exact h.safe k' todo out hk'

omit [BodyCodec Body] in
/-- A publication of the pool itself. -/
theorem Enrolled.publish {s s' : Floor Body} {now clock : ℚ} {p : Pool}
    (h : Enrolled p.id s) (hg : s'.registry = publishMeta now clock p s.registry)
    (hc : s'.calls = s.calls) (htime : s'.time = now) : Enrolled p.id s' := by
  have hdoc : s'.registry.doc p.id = some
      ⟨⟨p.id, p.hostname, p.version, "active", p.startedAt, clock, p.concurrencyLimit⟩,
        now + workerMetaTTL⟩ := by
    rw [hg]
    exact put_self _ _ _
  refine ⟨?_, fun _ => by rw [hdoc]; rfl, fun _ _ _ _ => by rw [hdoc]; rfl, hc ▸ h.safe⟩
  intro t ht
  obtain rfl := Option.some.inj (hdoc.symm.trans ht)
  refine ⟨by rw [hg]; exact Finset.mem_insert_self _ _, rfl, ?_⟩
  rw [htime, workerMetaTTL]
  exact le_add_of_nonneg_right (by norm_num)

/-- **Step.** -/
theorem Enrolled.step {id : String} {s s' : Floor Body} {c : FloorCall Body}
    (h : Enrolled id s) (hok : InTime id s c) (hst : s.step c = some s') : Enrolled id s' := by
  obtain ⟨hnd, hlast⟩ := hok
  obtain ⟨htime, ⟨p, clock, hact, hg, hc⟩ | ⟨x, hact, hg, hc⟩ | ⟨k, hact, hg, hnone, hc⟩ |
    ⟨k, clock, ids, pc, pc', hact, hpc, hmove, hc⟩ | ⟨hw, hd, hc⟩⟩ := Floor.step_cases hst
  · by_cases hp : id = p.id
    · subst hp
      exact h.publish hg hc htime
    · refine h.congr ?_ ?_ (fun k pc hk => .inl (hc ▸ hk)) fun t ht => htime ▸ (hlast t ht).1
      · simp [hg, publishMeta, hp]
      · rw [hg]
        exact put_of_ne _ _ hp
  · have hx : id ≠ x := by
      rintro rfl
      simp [hact, FloorAct.signsOff] at hnd
    refine h.congr ?_ ?_ (fun k pc hk => .inl (hc ▸ hk)) fun t ht => htime ▸ (hlast t ht).1
    · simp [hg, deregister, hx]
    · rw [hg]
      exact del_of_ne _ hx
  · refine h.congr (by rw [hg]) (by rw [hg]) ?_ fun t ht => htime ▸ (hlast t ht).1
    intro k' pc hk'
    rw [hc] at hk'
    rcases put_eq_some.mp hk' with ⟨-, rfl⟩ | ⟨-, hk'⟩
    · exact .inr rfl
    · exact .inl hk'
  · exact h.move hpc hmove hc (fun t ht => (hlast t ht).1) htime
  · exact h.congr (by rw [hw]) (by rw [hd]) (fun k pc hk => .inl (hc ▸ hk))
      fun t ht => htime ▸ (hlast t ht).1

/-- **Run.** -/
theorem enrolled_run {id : String} {s s' : Floor Body} {cs : List (FloorCall Body)}
    (h : Enrolled id s) (hrun : FloorRun (InTime id) s cs s') : Enrolled id s' :=
  Run.invariant (Enrolled id) (fun _ _ _ hok hst hs => hs.step hok hst) hrun h

/-- A call that has listed the pool, is reading it, or is still to read it. -/
def OnPage (id : String) (pc : ReadPc) : Prop :=
  pc = .start ∨ id ∈ pc.todo ∨
    ∃ w, (pc.entry = some w ∨ w ∈ pc.out) ∧ w.id = id ∧ w.status = "healthy"

/-- **Step of a call.** -/
theorem OnPage.move {id : String} {now clock : ℚ} {g g' : Registry} {pc pc' : ReadPc}
    {t : Timed WorkerMeta} (h : OnPage id pc) (hmove : ReadMove now clock g pc g' pc')
    (ht : g.doc id = some t) (hmem : id ∈ g.workers) (hid : t.value.id = id)
    (hnow : now ≤ t.deadline) (hclock : clock - t.value.lastHeartbeat ≤ 25) :
    OnPage id pc' := by
  cases hmove with
  | list hl => exact .inr (.inl (List.mem_toFinset.mp (hl.2 ▸ hmem)))
  | @lapsed x todo out hnone =>
    rcases h with h | h | h
    · cases h
    · rcases List.mem_cons.mp h with rfl | h
      · rw [ht, Timed.read_of_le hnow] at hnone
        cases hnone
      · exact .inr (.inl h)
    · exact .inr (.inr h)
  | @found x todo out m hm =>
    rcases h with h | h | ⟨w, hw | hw, hrest⟩
    · cases h
    · rcases List.mem_cons.mp h with rfl | h
      · -- its turn: the document found is the one it published last
        rw [ht, Timed.read_of_le hnow] at hm
        obtain rfl := Option.some.inj hm
        refine .inr (.inr ⟨_, .inl rfl, hid, ?_⟩)
        show healthOf clock t.value = "healthy"
        unfold healthOf
        rw [if_neg (not_lt.mpr hclock)]
      · exact .inr (.inl h)
    · cases hw
    · exact .inr (.inr ⟨w, .inr hw, hrest⟩)
  | sweep =>
    rcases h with h | h | h
    · cases h
    · exact .inr (.inl h)
    · exact .inr (.inr h)
  | @filled key w₀ todo out =>
    rcases h with h | h | ⟨w, hw | hw, hrest⟩
    · cases h
    · exact .inr (.inl h)
    · obtain rfl := Option.some.inj hw
      exact .inr (.inr ⟨_, .inr (List.mem_append_right _ List.mem_cons_self), hrest⟩)
    · exact .inr (.inr ⟨w, .inr (List.mem_append_left _ hw), hrest⟩)
  | filling _ _ htodo hout hentry hentry' hid' hst' =>
    rcases h with rfl | h | ⟨w, hw | hw, hrest⟩
    · cases hentry
    · exact .inr (.inl (htodo ▸ h))
    · obtain rfl := Option.some.inj (hentry.symm.trans hw)
      exact .inr (.inr ⟨_, .inl hentry', hid'.trans hrest.1, hst'.trans hrest.2⟩)
    · exact .inr (.inr ⟨w, .inr (hout ▸ hw), hrest⟩)

/-- A pool that does not sign off keeps its document. -/
theorem Floor.step_doc {id : String} {s s' : Floor Body} {c : FloorCall Body}
    (hst : s.step c = some s') (hnd : c.act.signsOff id = false)
    (hd : (s.registry.doc id).isSome = true) : (s'.registry.doc id).isSome = true := by
  obtain ⟨-, ⟨p, clock, -, hg, -⟩ | ⟨x, hact, hg, -⟩ | ⟨k, -, hg, -⟩ |
    ⟨k, clock, ids, pc, pc', -, -, hmove, -⟩ | ⟨-, hd', -⟩⟩ := Floor.step_cases hst
  · rw [hg]
    by_cases hp : id = p.id
    · simp [publishMeta, hp]
    · simpa [publishMeta, hp] using hd
  · have hx : id ≠ x := by
      rintro rfl
      simp [hact, FloorAct.signsOff] at hnd
    simpa [hg, deregister, hx] using hd
  · rw [hg]
    exact hd
  · rw [hmove.doc_eq]
    exact hd
  · rw [hd']
    exact hd

/-- A step of another party leaves a call where it is. -/
theorem Floor.step_calls {s s' : Floor Body} {c : FloorCall Body} (hst : s.step c = some s')
    {k : ℕ} {pc' : ReadPc} (hpc' : s'.calls k = some pc') :
    s.calls k = some pc' ∨ pc' = .start ∨ ∃ clock ids pc, c.act = .next k clock ids ∧
      s.calls k = some pc ∧ ReadMove c.now clock s.registry pc s'.registry pc' := by
  obtain ⟨-, ⟨p, clock, -, -, hc⟩ | ⟨x, -, -, hc⟩ | ⟨k', -, -, -, hc⟩ |
    ⟨k', clock, ids, pc, pc₁, hact, hpc, hmove, hc⟩ | ⟨-, -, hc⟩⟩ := Floor.step_cases hst
  · exact .inl (hc ▸ hpc')
  · exact .inl (hc ▸ hpc')
  · rw [hc] at hpc'
    rcases put_eq_some.mp hpc' with ⟨-, rfl⟩ | ⟨-, hold⟩
    · exact .inr (.inl rfl)
    · exact .inl hold
  · rw [hc] at hpc'
    rcases put_eq_some.mp hpc' with ⟨rfl, rfl⟩ | ⟨-, hold⟩
    · exact .inr (.inr ⟨clock, ids, pc, hact, hpc, hmove⟩)
    · exact .inl hold
  · exact .inl (hc ▸ hpc')

/-- **A pool that publishes in time is on every page.** In every run in which no step comes
later than the pool's document lasts, the pool does not sign off, and the clock of every call
reads at most 25 seconds past the pool's last heartbeat, with any number of other pools, calls
and engine commands in between: once it has published, the pool is a member and its document
is there, and every call that comes in after that and ends lists it as healthy. The document
lasts 30 seconds; a call whose clock is between 25 and 30 seconds past the heartbeat lists
the pool as stale. -/
theorem live_pool_is_listed {id : String} {cs₀ cs : List (FloorCall Body)}
    {s₀ s : Floor Body} (h₀ : FloorRun (InTime id) .init cs₀ s₀)
    (hreg : (s₀.registry.doc id).isSome = true) {k : ℕ} (hk : s₀.calls k = none)
    (hrun : FloorRun (InTime id) s₀ cs s) :
    id ∈ s.registry.workers ∧ (Timed.read s.time (s.registry.doc id)).isSome = true ∧
    ∀ out, (s.calls k).bind ReadPc.reply = some out →
      ∃ w ∈ out, w.id = id ∧ w.status = "healthy" := by
  have hinv : (Enrolled id s ∧ (s.registry.doc id).isSome = true) ∧
      ∀ pc, s.calls k = some pc → OnPage id pc := by
    refine Run.invariant (fun s : Floor Body =>
      (Enrolled id s ∧ (s.registry.doc id).isSome = true) ∧
        ∀ pc, s.calls k = some pc → OnPage id pc) ?_ hrun
      ⟨⟨enrolled_run (.init id) h₀, hreg⟩, by simp [hk]⟩
    rintro s c s' hok hst ⟨⟨he, hd⟩, hpage⟩
    refine ⟨⟨he.step hok hst, Floor.step_doc hst hok.1 hd⟩, ?_⟩
    intro pc' hpc'
    obtain ⟨t, ht⟩ := Option.isSome_iff_exists.mp hd
    obtain ⟨hmem, hid, -⟩ := he.member t ht
    rcases Floor.step_calls hst hpc' with hold | rfl | ⟨clock, ids, pc, hact, hpc, hmove⟩
    · exact hpage pc' hold
    · exact .inl rfl
    · exact (hpage pc hpc).move hmove ht hmem hid (hok.2 t ht).1
        ((hok.2 t ht).2 clock (by simp [hact, FloorAct.readClock]))
  obtain ⟨⟨he, hd⟩, hpage⟩ := hinv
  obtain ⟨t, ht⟩ := Option.isSome_iff_exists.mp hd
  obtain ⟨hmem, -, htime⟩ := he.member t ht
  refine ⟨hmem, by rw [ht, Timed.read_of_le htime]; rfl, ?_⟩
  intro out hout
  obtain ⟨pc, hpc, hreply⟩ := Option.bind_eq_some_iff.mp hout
  -- a finished call has nothing left to read and no entry half filled in
  cases pc with
  | doc todo out' =>
    cases todo with
    | nil =>
      obtain rfl := Option.some.inj hreply
      rcases hpage _ hpc with h | h | ⟨w, hw | hw, hrest⟩
      · cases h
      · cases h
      · cases hw
      · exact ⟨w, hw, hrest⟩
    | cons _ _ => cases hreply
  | _ => cases hreply

end Steps

/-- A pool. -/
def samplePool : Pool := ⟨"w1", "host", "v1", 0, 4⟩

/-- It publishes at 0 and at 10, and a call reads the page around its second publication. -/
def pageCalls : List (FloorCall JsonBody) :=
  [⟨5, .request 0⟩, ⟨5, .next 0 5 ["w1"]⟩, ⟨10, .publish samplePool 10⟩, ⟨11, .next 0 11 []⟩,
    ⟨11, .next 0 11 []⟩, ⟨12, .next 0 12 []⟩]

/-- The floor after the first publication. -/
def publishedFloor : Floor JsonBody :=
  { (Floor.init : Floor JsonBody) with registry := publishMeta 0 0 samplePool .empty }

theorem live_pool_is_listed_sample :
    ∃ s : Floor JsonBody, FloorRun (InTime "w1") publishedFloor pageCalls s ∧
      "w1" ∈ s.registry.workers ∧
      ∃ out, (s.calls 0).bind ReadPc.reply = some out ∧
        ∃ w ∈ out, w.id = "w1" ∧ w.status = "healthy" := by
  have h₀ : FloorRun (InTime "w1") .init [⟨0, .publish samplePool 0⟩] publishedFloor :=
    .cons (by decide +kernel) rfl .nil
  obtain ⟨s, hrun, hend⟩ : ∃ s : Floor JsonBody,
      FloorRun (InTime "w1") publishedFloor pageCalls s ∧
        ((s.calls 0).bind ReadPc.reply).isSome = true :=
    Run.exists_of_checked (by decide +kernel)
  obtain ⟨out, hout⟩ := Option.isSome_iff_exists.mp hend
  obtain ⟨h1, -, h2⟩ := live_pool_is_listed h₀ (by decide +kernel) (k := 0) rfl hrun
  exact ⟨s, hrun, h1, out, hout, h2 out hout⟩

section Steps

variable {Body : Type} [BodyCodec Body]

/-! ## A pool that has stopped -/

/-- The pool does not publish, and every step comes after its document has lapsed. -/
def Silent (id : String) (s : Floor Body) (c : FloorCall Body) : Prop :=
  c.act.publisher ≠ some id ∧ ∀ t ∈ s.registry.doc id, t.deadline < c.now

instance (id : String) (s : Floor Body) (c : FloorCall Body) : Decidable (Silent id s c) :=
  inferInstanceAs (Decidable (_ ∧ _))

/-- A call that has not come past the pool, or has removed it; and that does not show it. -/
def OffPage (id : String) (g : Registry) (pc : ReadPc) : Prop :=
  pc = .start ∨
    (id ∈ pc.todo ∨ (∃ todo out, pc = .srem id todo out) ∨ id ∉ g.workers) ∧
      (∀ w, pc.entry = some w → w.id ≠ id) ∧ ∀ w ∈ pc.out, w.id ≠ id

/-- Every document is about the pool whose key it is under. -/
def OwnDocs (g : Registry) : Prop := ∀ id t, g.doc id = some t → t.value.id = id

theorem OwnDocs.step {s s' : Floor Body} {c : FloorCall Body} (h : OwnDocs s.registry)
    (hst : s.step c = some s') : OwnDocs s'.registry := by
  intro id t ht
  obtain ⟨-, ⟨p, clock, -, hg, -⟩ | ⟨x, -, hg, -⟩ | ⟨k, -, hg, -⟩ |
    ⟨k, clock, ids, pc, pc', -, -, hmove, -⟩ | ⟨-, hd, -⟩⟩ := Floor.step_cases hst
  · rw [hg] at ht
    rcases put_eq_some.mp ht with ⟨rfl, rfl⟩ | ⟨-, ht⟩
    · rfl
    · exact h id t ht
  · rw [hg] at ht
    exact h id t (del_eq_some.mp ht).2
  · exact h id t (hg ▸ ht)
  · exact h id t (hmove.doc_eq ▸ ht)
  · exact h id t (hd ▸ ht)

/-- A pool without a document that a call has to read stays so, or is removed next. -/
theorem ReadMove.still_ahead {id : String} {now clock : ℚ} {g g' : Registry} {pc pc' : ReadPc}
    (h : ReadMove now clock g pc g' pc') (hnone : Timed.read now (g.doc id) = none)
    (hm : id ∈ pc.todo) : id ∈ pc'.todo ∨ ∃ todo out, pc' = .srem id todo out := by
  cases h with
  | list _ => cases hm
  | lapsed _ =>
    rcases List.mem_cons.mp hm with rfl | hm
    · exact .inr ⟨_, _, rfl⟩
    · exact .inl hm
  | found hfound =>
    rcases List.mem_cons.mp hm with rfl | hm
    · rw [hnone] at hfound
      cases hfound
    · exact .inl hm
  | sweep => exact .inl hm
  | filled => exact .inl hm
  | filling _ _ htodo => exact .inl (htodo ▸ hm)

theorem ReadMove.removes {id : String} {now clock : ℚ} {g g' : Registry} {pc' : ReadPc}
    {todo : List String} {out : List WorkerView}
    (h : ReadMove now clock g (.srem id todo out) g' pc') : id ∉ g'.workers := by
  cases h with
  | sweep => exact Finset.notMem_erase _ _
  | filling _ _ _ _ hentry => cases hentry

/-- A pool without a document gets no entry. -/
theorem ReadMove.unseen {id : String} {now clock : ℚ} {g g' : Registry} {pc pc' : ReadPc}
    (h : ReadMove now clock g pc g' pc') (hown : OwnDocs g)
    (hnone : Timed.read now (g.doc id) = none) (hentry : ∀ w, pc.entry = some w → w.id ≠ id)
    (hout : ∀ w ∈ pc.out, w.id ≠ id) :
    (∀ w, pc'.entry = some w → w.id ≠ id) ∧ ∀ w ∈ pc'.out, w.id ≠ id := by
  cases h with
  | list _ => exact ⟨by simp [ReadPc.entry], by simp [ReadPc.out]⟩
  | lapsed _ => exact ⟨by simp [ReadPc.entry], hout⟩
  | @found x todo out m hm =>
    refine ⟨?_, hout⟩
    -- the document found is about the pool it was read for
    rintro w hw rfl
    obtain rfl := Option.some.inj hw
    obtain ⟨t, ht, hread⟩ := Option.bind_eq_some_iff.mp hm
    split at hread
    · obtain rfl := Option.some.inj hread
      have hid : (t.value.view clock).id = x := hown x t ht
      rw [hid, hm] at hnone
      cases hnone
    · cases hread
  | sweep => exact ⟨by simp [ReadPc.entry], hout⟩
  | filled =>
    refine ⟨by simp [ReadPc.entry], fun w hw => ?_⟩
    rcases List.mem_append.mp hw with hw | hw
    · exact hout w hw
    · obtain rfl := List.mem_singleton.mp hw
      exact hentry w rfl
  | filling _ _ _ hout' hbefore hafter hid' _ =>
    refine ⟨fun w hw => ?_, hout' ▸ hout⟩
    obtain rfl := Option.some.inj (hafter.symm.trans hw)
    rw [hid']
    exact hentry _ hbefore

/-- **Step of a call.** -/
theorem OffPage.move {id : String} {now clock : ℚ} {g g' : Registry} {pc pc' : ReadPc}
    (h : OffPage id g pc) (hmove : ReadMove now clock g pc g' pc') (hown : OwnDocs g)
    (hnone : Timed.read now (g.doc id) = none) : OffPage id g' pc' := by
  have hshown : (∀ w, pc.entry = some w → w.id ≠ id) ∧ ∀ w ∈ pc.out, w.id ≠ id := by
    rcases h with rfl | ⟨-, h⟩
    · exact ⟨by simp [ReadPc.entry], by simp [ReadPc.out]⟩
    · exact h
  refine .inr ⟨?_, hmove.unseen hown hnone hshown.1 hshown.2⟩
  by_cases hm : id ∈ g'.workers
  · rcases h with rfl | ⟨hm' | ⟨todo, out, rfl⟩ | hm', -⟩
    · cases hmove with
      | list hl => exact .inl (List.mem_toFinset.mp (hl.2 ▸ hm))
      | filling _ _ _ _ hentry => cases hentry
    · exact (hmove.still_ahead hnone hm').imp_right .inl
    · exact absurd hm hmove.removes
    · exact absurd (hmove.workers_subset hm) hm'
  · exact .inr (.inr hm)

/-- A pool that does not publish does not become a member. -/
theorem Floor.step_workers {id : String} {s s' : Floor Body} {c : FloorCall Body}
    (hst : s.step c = some s') (hp : c.act.publisher ≠ some id)
    (hm : id ∉ s.registry.workers) : id ∉ s'.registry.workers := by
  obtain ⟨-, ⟨p, clock, hact, hg, -⟩ | ⟨x, -, hg, -⟩ | ⟨k, -, hg, -⟩ |
    ⟨k, clock, ids, pc, pc', -, -, hmove, -⟩ | ⟨hw, -⟩⟩ := Floor.step_cases hst
  · have hne : id ≠ p.id := by
      rintro rfl
      simp [hact, FloorAct.publisher] at hp
    simp [hg, publishMeta, hm, hne]
  · simp [hg, deregister, hm]
  · rw [hg]
    exact hm
  · exact fun h => hm (hmove.workers_subset h)
  · rw [hw]
    exact hm

/-- **A pool that has stopped is on no page.** From any reachable state on, if the pool
does not publish and its document has lapsed, then a call that comes in and ends, with any
other steps in between, does not show the pool and leaves it out of the member set. -/
theorem silent_pool_is_removed {id : String} {cs₀ cs : List (FloorCall Body)}
    {s₀ s : Floor Body} (h₀ : FloorRun (fun _ _ => True) .init cs₀ s₀) {k : ℕ}
    (hk : s₀.calls k = none) (hrun : FloorRun (Silent id) s₀ cs s) {out : List WorkerView}
    (hout : (s.calls k).bind ReadPc.reply = some out) :
    id ∉ s.registry.workers ∧ ∀ w ∈ out, w.id ≠ id := by
  have hown₀ : OwnDocs s₀.registry :=
    Run.invariant (fun s : Floor Body => OwnDocs s.registry) (fun _ _ _ _ hst h => h.step hst)
      h₀ (fun _ _ ht => by cases ht)
  have hinv : OwnDocs s.registry ∧
      ∀ pc, s.calls k = some pc → OffPage id s.registry pc := by
    refine Run.invariant (fun s : Floor Body => OwnDocs s.registry ∧
      ∀ pc, s.calls k = some pc → OffPage id s.registry pc) ?_ hrun ⟨hown₀, by simp [hk]⟩
    rintro s c s' ⟨hp, hlapsed⟩ hst ⟨hown, hoff⟩
    refine ⟨hown.step hst, ?_⟩
    intro pc' hpc'
    rcases Floor.step_calls hst hpc' with hold | rfl | ⟨clock, ids, pc, -, hpc, hmove⟩
    · refine (hoff pc' hold).imp_right fun h => ⟨?_, h.2⟩
      exact h.1.imp_right fun h' => h'.imp_right (Floor.step_workers hst hp)
    · exact .inl rfl
    · refine (hoff pc hpc).move hmove hown ?_
      cases hd : s.registry.doc id with
      | none => rfl
      | some t => simp [Timed.read, not_le.mpr (hlapsed t hd)]
  obtain ⟨pc, hpc, hreply⟩ := Option.bind_eq_some_iff.mp hout
  cases pc with
  | doc todo out' =>
    cases todo with
    | nil =>
      obtain rfl := Option.some.inj hreply
      obtain ⟨hplace, -, hno⟩ := (hinv.2 _ hpc).resolve_left (by simp)
      rcases hplace with hm | ⟨_, _, heq⟩ | hm
      · cases hm
      · cases heq
      · exact ⟨hm, hno⟩
    | cons _ _ => cases hreply
  | _ => cases hreply

end Steps

/-- The pool crashed after its publication at 0, and a call reads the page at 40. -/
def lateCalls : List (FloorCall JsonBody) :=
  [⟨40, .request 0⟩, ⟨40, .next 0 40 ["w1"]⟩, ⟨40, .next 0 40 []⟩, ⟨41, .next 0 41 []⟩]

theorem silent_pool_is_removed_sample :
    ∃ s : Floor JsonBody, FloorRun (Silent "w1") publishedFloor lateCalls s ∧
      "w1" ∈ publishedFloor.registry.workers ∧ "w1" ∉ s.registry.workers := by
  have h₀ : FloorRun (fun _ _ => True) .init [⟨0, .publish samplePool 0⟩] publishedFloor :=
    .cons trivial rfl .nil
  obtain ⟨s, hrun, hend⟩ : ∃ s : Floor JsonBody,
      FloorRun (Silent "w1") publishedFloor lateCalls s ∧
        ((s.calls 0).bind ReadPc.reply).isSome = true :=
    Run.exists_of_checked (by decide +kernel)
  obtain ⟨out, hout⟩ := Option.isSome_iff_exists.mp hend
  exact ⟨s, hrun, by decide +kernel, (silent_pool_is_removed h₀ rfl hrun hout).1⟩

end ForgeQueue
