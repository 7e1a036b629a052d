import ForgeQueue.Logic.Scripts
import ForgeQueue.Model.Api

/-!
# What the worker scripts read of a task's body and of the dead list

A script never reads the dead list, it only pushes to it (`Script.run_dead`). It reads
or writes `task:<id>` only when it claims, acknowledges or fails task `id`
(`Script.Touches`); otherwise a body written before it might as well be written after it
(`Script.run_setBody`).
-/

namespace ForgeQueue

open Base

section Loops

variable {Body : Type}

/-- Replace the dead list. -/
def Redis.withDead (r : Redis Body) (dead : List Body) : Redis Body := { r with dead := dead }

/-- Write a body. -/
def Redis.setBody (r : Redis Body) (id : String) (body : Body) : Redis Body :=
  { r with task := put r.task id body }

@[simp] theorem withDead_dead (r : Redis Body) (dead : List Body) :
    (r.withDead dead).dead = dead := rfl
@[simp] theorem withDead_task (r : Redis Body) (dead : List Body) :
    (r.withDead dead).task = r.task := rfl
@[simp] theorem setBody_task (r : Redis Body) (id : String) (body : Body) :
    (r.setBody id body).task = put r.task id body := rfl

/-! ## Claims -/

/-- A claim pops a front segment of the ready list. -/
theorem claimLoop_ids (expiry : ℚ) (leaseIDs : List String) (r : Redis Body) :
    (claimLoop expiry leaseIDs r).2 = r.immediate.take leaseIDs.length := by
  induction leaseIDs generalizing r with
  | nil => rfl
  | cons leaseID rest ih =>
    cases hr : r.immediate with
    | nil => simp [claimLoop, hr]
    | cons taskID ready => simp [claimLoop, hr, ih]

/-- It neither reads nor writes bodies or the dead list. -/
theorem claimLoop_frame (expiry : ℚ) (leaseIDs : List String) (r : Redis Body)
    (dead : List Body) (task : String → Option Body) :
    (claimLoop expiry leaseIDs { r with dead := dead, task := task }).1 =
      { (claimLoop expiry leaseIDs r).1 with dead := dead, task := task } := by
  induction leaseIDs generalizing r with
  | nil => rfl
  | cons leaseID rest ih =>
    cases hr : r.immediate with
    | nil => simp [claimLoop, hr]
    | cons taskID ready =>
      simp only [claimLoop, hr]
      exact ih { r with
        immediate := ready
        inflight := put r.inflight taskID expiry
        leases := put r.leases taskID leaseID }

/-- The reply of an unpaused claim: the front of the ready list with its bodies. -/
theorem claimBatch_eq {r : Redis Body} (hp : r.paused = false) (leaseIDs : List String)
    (expiry : ℚ) :
    claimBatch leaseIDs expiry r =
      ((claimLoop expiry leaseIDs r).1,
        List.zipWith (fun taskID leaseID => ⟨taskID, leaseID, r.task taskID⟩)
          (r.immediate.take leaseIDs.length) leaseIDs) := by
  rw [claimBatch, hp]
  simp only [Bool.false_eq_true, if_false, claimLoop_ids, claimLoop_task]

theorem claimBatch_paused {r : Redis Body} (hp : r.paused = true) (leaseIDs : List String)
    (expiry : ℚ) : claimBatch leaseIDs expiry r = (r, []) := by
  rw [claimBatch, hp, if_pos rfl]

/-! ## Acknowledgements -/

/-- An acknowledgement never touches the dead list. -/
theorem ackBatch_withDead (pairs : List (String × String)) (r : Redis Body) (dead : List Body) :
    ackBatch pairs (r.withDead dead) =
      ((ackBatch pairs r).1.withDead dead, (ackBatch pairs r).2) := by
  induction pairs generalizing r with
  | nil => rfl
  | cons p rest ih =>
    obtain ⟨taskID, leaseID⟩ := p
    by_cases h : r.leases taskID = some leaseID
    · have h' : (r.withDead dead).leases taskID = some leaseID := h
      rw [ackBatch, ackBatch, if_pos h, if_pos h']
      have hih := ih { r.release taskID with task := del r.task taskID }
      exact congrArg (fun q : Redis Body × List String => (q.1, taskID :: q.2)) hih
    · have h' : ¬ (r.withDead dead).leases taskID = some leaseID := h
      rw [ackBatch, ackBatch, if_neg h, if_neg h']
      exact ih r

/-- Removing one key and writing another commute. -/
theorem del_put_comm {m : String → Option Body} {x y : String} (h : x ≠ y) (b : Body) :
    del (put m y b) x = put (del m x) y b := by
  funext z
  by_cases hz : z = x
  · rw [hz, del_self, put_of_ne _ _ h, del_self]
  · by_cases hy : z = y
    · rw [hy, del_of_ne _ (Ne.symm h), put_self, put_self]
    · rw [del_of_ne _ hz, put_of_ne _ _ hy, put_of_ne _ _ hy, del_of_ne _ hz]

/-- Writing two keys commutes. -/
theorem put_put_comm {m : String → Option Body} {x y : String} (h : x ≠ y) (b c : Body) :
    put (put m y b) x c = put (put m x c) y b := by
  funext z
  by_cases hz : z = x
  · rw [hz, put_self, put_of_ne _ _ h, put_self]
  · by_cases hy : z = y
    · rw [hy, put_of_ne _ _ (Ne.symm h), put_self, put_self]
    · rw [put_of_ne _ _ hz, put_of_ne _ _ hy, put_of_ne _ _ hy, put_of_ne _ _ hz]

/-- The batch presents the current token of the task. -/
def AcksTask (id : String) (r : Redis Body) (pairs : List (String × String)) : Prop :=
  ∃ p ∈ pairs, p.1 = id ∧ r.leases id = some p.2

/-- What a batch that spares the task does next: its head is another task's or is
rejected, and the rest spares the task too. -/
theorem AcksTask.split {id taskID leaseID : String} {r : Redis Body}
    {rest : List (String × String)} (hno : ¬ AcksTask id r ((taskID, leaseID) :: rest)) :
    (r.leases taskID = some leaseID ∧ taskID ≠ id ∧
        ¬ AcksTask id { r.release taskID with task := del r.task taskID } rest) ∨
      (¬ r.leases taskID = some leaseID ∧ ¬ AcksTask id r rest) := by
  by_cases h : r.leases taskID = some leaseID
  · have hne : taskID ≠ id := by
      rintro rfl
      exact hno ⟨_, List.mem_cons_self, rfl, h⟩
    refine .inl ⟨h, hne, ?_⟩
    rintro ⟨p, hp, hid, hl⟩
    change del r.leases taskID id = some p.2 at hl
    rw [del_of_ne _ (Ne.symm hne)] at hl
    exact hno ⟨p, List.mem_cons_of_mem _ hp, hid, hl⟩
  · refine .inr ⟨h, ?_⟩
    rintro ⟨p, hp, hid, hl⟩
    exact hno ⟨p, List.mem_cons_of_mem _ hp, hid, hl⟩

/-- A batch that does not acknowledge the task leaves its body alone. -/
theorem ackBatch_spares {id : String} (pairs : List (String × String)) :
    ∀ r : Redis Body, ¬ AcksTask id r pairs → (ackBatch pairs r).1.task id = r.task id := by
  induction pairs with
  | nil => exact fun _ _ => rfl
  | cons p rest ih =>
    intro r hno
    obtain ⟨taskID, leaseID⟩ := p
    rcases AcksTask.split hno with ⟨h, hne, hrest⟩ | ⟨h, hrest⟩
    · rw [ackBatch, if_pos h]
      exact (ih _ hrest).trans (del_of_ne _ (Ne.symm hne))
    · rw [ackBatch, if_neg h]
      exact ih r hrest

/-- A batch that does not acknowledge the task commutes with a write of its body. -/
theorem ackBatch_setBody {id : String} (body : Body) (pairs : List (String × String)) :
    ∀ r : Redis Body, ¬ AcksTask id r pairs →
      ackBatch pairs (r.setBody id body) =
        ((ackBatch pairs r).1.setBody id body, (ackBatch pairs r).2) := by
  induction pairs with
  | nil => exact fun _ _ => rfl
  | cons p rest ih =>
    intro r hno
    obtain ⟨taskID, leaseID⟩ := p
    rcases AcksTask.split hno with ⟨h, hne, hrest⟩ | ⟨h, hrest⟩
    · have h' : (r.setBody id body).leases taskID = some leaseID := h
      rw [ackBatch, ackBatch, if_pos h, if_pos h']
      have hst : ({ (r.setBody id body).release taskID with
          task := del (r.setBody id body).task taskID } : Redis Body) =
          Redis.setBody { r.release taskID with task := del r.task taskID } id body := by
        show ({ r.release taskID with task := del (put r.task id body) taskID } : Redis Body) =
          { r.release taskID with task := put (del r.task taskID) id body }
        rw [del_put_comm hne]
      rw [hst]
      exact congrArg (fun q : Redis Body × List String => (q.1, taskID :: q.2)) (ih _ hrest)
    · have h' : ¬ (r.setBody id body).leases taskID = some leaseID := h
      rw [ackBatch, ackBatch, if_neg h, if_neg h']
      exact ih r hrest

end Loops

section Scripts

variable {Body : Type} [BodyCodec Body]

/-! ## Failed attempts -/

/-- The retry decision reads nothing of the dead list and pushes at most one entry. -/
theorem retryOrBury_withDead (now base cap : ℚ) (id : String) (r : Redis Body) :
    ∃ added, ∀ dead, retryOrBury now base cap id (r.withDead dead) =
      ((retryOrBury now base cap id r).1.withDead (added ++ dead),
        (retryOrBury now base cap id r).2) := by
  unfold retryOrBury
  simp only [withDead_task]
  -- the exits of the script in the order of its statements
  split
  · exact ⟨[], fun _ => rfl⟩
  rename_i body _
  split
  · exact ⟨[body], fun _ => rfl⟩
  split
  · exact ⟨[body], fun _ => rfl⟩
  split
  · exact ⟨[], fun _ => rfl⟩
  split
  · exact ⟨[], fun _ => rfl⟩
  rename_i newBody _
  split
  · exact ⟨[], fun _ => rfl⟩
  split
  · exact ⟨[newBody], fun _ => rfl⟩
  · exact ⟨[], fun _ => rfl⟩

/-- The retry decision on one task commutes with a write of another one's body. -/
theorem retryOrBury_setBody {id t : String} (h : t ≠ id) (now base cap : ℚ) (r : Redis Body)
    (body : Body) :
    retryOrBury now base cap t (r.setBody id body) =
      ((retryOrBury now base cap t r).1.setBody id body, (retryOrBury now base cap t r).2) := by
  unfold retryOrBury
  simp only [setBody_task, put_of_ne _ _ h]
  split
  · rfl
  split
  · rfl
  split
  · rfl
  split
  · rfl
  split
  · rfl
  rename_i newBody _
  have hput : put (put r.task id body) t newBody = put (put r.task t newBody) id body :=
    put_put_comm h _ _
  split
  · simp only [Redis.setBody, hput]
  split
  · simp only [Redis.setBody, hput]
  · simp only [Redis.setBody, hput]

/-- A body that is missing stays missing, and one that is there stays there. -/
theorem retryOrBury_task_isSome (now base cap : ℚ) (id t : String) (r : Redis Body) :
    ((retryOrBury now base cap t r).1.task id).isSome = (r.task id).isSome := by
  have hput : ∀ b : Body, (r.task t).isSome = true →
      (put r.task t b id).isSome = (r.task id).isSome := by
    intro b hb
    by_cases h : id = t
    · rw [h, put_self, hb]; rfl
    · rw [put_of_ne _ _ h]
  unfold retryOrBury
  split
  · rfl
  rename_i body hbody
  have hsome : (r.task t).isSome = true := by rw [hbody]; rfl
  split
  · rfl
  split
  · rfl
  split
  · rfl
  dsimp only
  split
  · rfl
  split
  · exact hput _ hsome
  split
  · exact hput _ hsome
  · exact hput _ hsome

/-! ## Scripts -/

/-- The script acknowledges the task. -/
def Script.Acks (id : String) (r : Redis Body) : Script → Prop
  | .ackBatch pairs => AcksTask id r pairs
  | _ => False

/-- The script claims, acknowledges or fails the task, so it reads or writes its body. -/
def Script.Touches (id : String) (r : Redis Body) : Script → Prop
  | .claimBatch leaseIDs _ => r.paused = false ∧ id ∈ r.immediate.take leaseIDs.length
  | .ackBatch pairs => AcksTask id r pairs
  | .requeueOrDead now _ _ taskID leaseID =>
    taskID = id ∧ requeueGuard now taskID leaseID r = none
  | _ => False

/-- A script reads nothing of the dead list; it pushes entries in front. -/
theorem Script.run_withDead (c : Script) (r : Redis Body) :
    ∃ added, ∀ dead, Script.run (r.withDead dead) c =
      ((Script.run r c).1.withDead (added ++ dead), (Script.run r c).2) := by
  cases c with
  | claimBatch leaseIDs expiry =>
    refine ⟨[], fun dead => ?_⟩
    simp only [Script.run]
    cases hp : r.paused with
    | true =>
      have hp' : (r.withDead dead).paused = true := hp
      rw [claimBatch_paused hp, claimBatch_paused hp']
      rfl
    | false =>
      have hp' : (r.withDead dead).paused = false := hp
      have hframe : (claimLoop expiry leaseIDs (r.withDead dead)).1 =
          (claimLoop expiry leaseIDs r).1.withDead dead := by
        refine (claimLoop_frame expiry leaseIDs r dead r.task).trans ?_
        rw [← claimLoop_task expiry leaseIDs r]
        rfl
      rw [claimBatch_eq hp, claimBatch_eq hp', hframe]
      rfl
  | heartbeat now d taskID leaseID =>
    refine ⟨[], fun dead => ?_⟩
    simp only [Script.run, ForgeQueue.heartbeat]
    by_cases h : r.leases taskID = some leaseID
    · have h' : (r.withDead dead).leases taskID = some leaseID := h
      rw [if_pos h, if_pos h']
      rfl
    · have h' : ¬ (r.withDead dead).leases taskID = some leaseID := h
      rw [if_neg h, if_neg h']
      rfl
  | ackBatch pairs =>
    refine ⟨[], fun dead => ?_⟩
    simp only [Script.run, ackBatch_withDead]
    rfl
  | requeueOrDead now base cap taskID leaseID =>
    simp only [Script.run, ForgeQueue.requeueOrDead]
    cases hg : requeueGuard now taskID leaseID r with
    | some status =>
      refine ⟨[], fun dead => ?_⟩
      have hg' : requeueGuard now taskID leaseID (r.withDead dead) = some status := hg
      rw [hg']
      rfl
    | none =>
      obtain ⟨added, hadded⟩ := retryOrBury_withDead now base cap taskID (r.release taskID)
      refine ⟨added, fun dead => ?_⟩
      have hg' : requeueGuard now taskID leaseID (r.withDead dead) = none := hg
      have hrel : (r.withDead dead).release taskID = (r.release taskID).withDead dead := rfl
      rw [hg', hrel]
      simp only [hadded]
  | promoteTask now taskID =>
    refine ⟨[], fun dead => ?_⟩
    simp only [Script.run, ForgeQueue.promoteTask]
    cases hs : r.scheduled taskID with
    | none =>
      have hs' : (r.withDead dead).scheduled taskID = none := hs
      rw [hs']
      rfl
    | some score =>
      have hs' : (r.withDead dead).scheduled taskID = some score := hs
      rw [hs']
      dsimp only
      split <;> rfl

/-- A claim leaves the bodies alone. -/
theorem Script.claimBatch_task (leaseIDs : List String) (expiry : ℚ) (r : Redis Body) :
    (Script.run r (.claimBatch leaseIDs expiry)).1.task = r.task := by
  simp only [Script.run]
  cases hp : r.paused with
  | true => rw [claimBatch_paused hp]
  | false => rw [claimBatch_eq hp]; exact claimLoop_task expiry leaseIDs r

/-- A script that does not touch the task leaves its body alone. -/
theorem Script.run_untouched {id : String} {c : Script} {r : Redis Body}
    (h : ¬ c.Touches id r) : (Script.run r c).1.task id = r.task id := by
  cases c with
  | claimBatch leaseIDs expiry => rw [Script.claimBatch_task]
  | heartbeat now d taskID leaseID =>
    simp only [Script.run, ForgeQueue.heartbeat]
    split <;> rfl
  | ackBatch pairs => exact ackBatch_spares pairs r h
  | requeueOrDead now base cap taskID leaseID =>
    simp only [Script.run, ForgeQueue.requeueOrDead]
    cases hg : requeueGuard now taskID leaseID r with
    | some status => rfl
    | none =>
      have hne : id ≠ taskID := fun he => h ⟨he.symm, hg⟩
      exact (retryOrBury_frame now base cap taskID (r.release taskID)).task id hne
  | promoteTask now taskID =>
    simp only [Script.run, ForgeQueue.promoteTask]
    split
    · rfl
    · split <;> rfl

/-- A script that does not touch the task commutes with a write of its body. -/
theorem Script.run_setBody {id : String} {c : Script} {r : Redis Body} (body : Body)
    (h : ¬ c.Touches id r) :
    Script.run (r.setBody id body) c =
      ((Script.run r c).1.setBody id body, (Script.run r c).2) := by
  cases c with
  | claimBatch leaseIDs expiry =>
    simp only [Script.run]
    cases hp : r.paused with
    | true =>
      have hp' : (r.setBody id body).paused = true := hp
      rw [claimBatch_paused hp, claimBatch_paused hp']
    | false =>
      have hp' : (r.setBody id body).paused = false := hp
      have htask := claimLoop_task expiry leaseIDs r
      have hframe : (claimLoop expiry leaseIDs (r.setBody id body)).1 =
          (claimLoop expiry leaseIDs r).1.setBody id body := by
        have hdead : (claimLoop expiry leaseIDs r).1.dead = r.dead := by
          show (claimLoop expiry leaseIDs { r with dead := r.dead, task := r.task }).1.dead = _
          rw [claimLoop_frame]
        refine (claimLoop_frame expiry leaseIDs r r.dead (put r.task id body)).trans ?_
        rw [Redis.setBody, htask, ← hdead]
      rw [claimBatch_eq hp, claimBatch_eq hp', hframe]
      -- the popped ids are other ones, so their bodies are the same
      have hne : ∀ t ∈ r.immediate.take leaseIDs.length, t ≠ id := by
        rintro t ht rfl
        exact h ⟨hp, ht⟩
      have hzip : ∀ (ids ls : List String), (∀ t ∈ ids, t ≠ id) →
          List.zipWith (fun t l => (⟨t, l, put r.task id body t⟩ : TaskClaim Body)) ids ls =
            List.zipWith (fun t l => ⟨t, l, r.task t⟩) ids ls := by
        intro ids
        induction ids with
        | nil => intro ls _; rfl
        | cons t ids ih =>
          intro ls hids
          cases ls with
          | nil => rfl
          | cons l ls =>
            rw [List.zipWith_cons_cons, List.zipWith_cons_cons,
              put_of_ne _ _ (hids t List.mem_cons_self),
              ih ls fun x hx => hids x (List.mem_cons_of_mem _ hx)]
      exact congrArg (fun cs => (_, ScriptReply.claims cs)) (hzip _ leaseIDs hne)
  | heartbeat now d taskID leaseID =>
    simp only [Script.run, ForgeQueue.heartbeat]
    by_cases hl : r.leases taskID = some leaseID
    · have hl' : (r.setBody id body).leases taskID = some leaseID := hl
      rw [if_pos hl, if_pos hl']
      rfl
    · have hl' : ¬ (r.setBody id body).leases taskID = some leaseID := hl
      rw [if_neg hl, if_neg hl']
  | ackBatch pairs =>
    simp only [Script.run, ackBatch_setBody body pairs r h]
  | requeueOrDead now base cap taskID leaseID =>
    simp only [Script.run, ForgeQueue.requeueOrDead]
    cases hg : requeueGuard now taskID leaseID r with
    | some status =>
      have hg' : requeueGuard now taskID leaseID (r.setBody id body) = some status := hg
      rw [hg']
    | none =>
      have hne : taskID ≠ id := fun he => h ⟨he, hg⟩
      have hg' : requeueGuard now taskID leaseID (r.setBody id body) = none := hg
      have hrel : (r.setBody id body).release taskID = (r.release taskID).setBody id body := rfl
      rw [hg', hrel]
      simp only [retryOrBury_setBody hne]
  | promoteTask now taskID =>
    simp only [Script.run, ForgeQueue.promoteTask]
    cases hs : r.scheduled taskID with
    | none =>
      have hs' : (r.setBody id body).scheduled taskID = none := hs
      rw [hs']
    | some score =>
      have hs' : (r.setBody id body).scheduled taskID = some score := hs
      rw [hs']
      dsimp only
      split <;> rfl

/-- Only an acknowledgement changes whether the body exists, and it never creates one. -/
theorem Script.run_task {id : String} {c : Script} {r : Redis Body} :
    (r.task id = none → (Script.run r c).1.task id = none) ∧
      (¬ c.Acks id r → ((Script.run r c).1.task id).isSome = (r.task id).isSome) := by
  cases c with
  | claimBatch leaseIDs expiry =>
    rw [Script.claimBatch_task]
    exact ⟨fun h => h, fun _ => rfl⟩
  | heartbeat now d taskID leaseID =>
    simp only [Script.run, ForgeQueue.heartbeat]
    split <;> exact ⟨fun h => h, fun _ => rfl⟩
  | ackBatch pairs =>
    refine ⟨fun h => (ackBatch_task id pairs r).elim (·.trans h) (fun hnone => hnone), fun h => ?_⟩
    exact congrArg Option.isSome (ackBatch_spares pairs r h)
  | requeueOrDead now base cap taskID leaseID =>
    have hsome : ((Script.run r (.requeueOrDead now base cap taskID leaseID)).1.task id).isSome =
        (r.task id).isSome := by
      simp only [Script.run, ForgeQueue.requeueOrDead]
      split
      · rfl
      · exact retryOrBury_task_isSome now base cap id taskID (r.release taskID)
    refine ⟨fun h => ?_, fun _ => hsome⟩
    rw [h] at hsome
    exact Option.not_isSome_iff_eq_none.mp (by simp [hsome])
  | promoteTask now taskID =>
    simp only [Script.run, ForgeQueue.promoteTask]
    split
    · exact ⟨fun h => h, fun _ => rfl⟩
    · split <;> exact ⟨fun h => h, fun _ => rfl⟩

end Scripts

/-! ## Removals from the dead list -/

section Dead

variable {Body : Type} [BodyCodec Body] [DecidableEq Body]

/-- The state after the entries `gone` were removed one by one. -/
def cut (gone : List Body) (r : Redis Body) : Redis Body :=
  r.withDead (gone.foldl List.erase r.dead)

omit [BodyCodec Body] in
/-- Entries that are not removed can be pushed before or after. -/
theorem foldl_erase_append {gone added : List Body} (h : ∀ b ∈ gone, b ∉ added)
    (dead : List Body) :
    gone.foldl List.erase (added ++ dead) = added ++ gone.foldl List.erase dead := by
  induction gone generalizing dead with
  | nil => rfl
  | cons body gone ih =>
    rw [List.foldl_cons, List.foldl_cons, List.erase_append_right _ (h body List.mem_cons_self)]
    exact ih (fun b hb => h b (List.mem_cons_of_mem _ hb)) _

omit [DecidableEq Body] in
theorem deadOf_of_mem_matching {id : String} {bodies : List Body} {b : Body}
    (h : b ∈ matching id bodies) : deadOf id b = true :=
  (List.mem_filter.mp h).2

omit [BodyCodec Body] in
theorem foldl_lrem (gone : List Body) (r : Redis Body) :
    gone.foldl (fun r body => lrem body r) r = cut gone r := by
  induction gone generalizing r with
  | nil => rfl
  | cons body gone ih => exact ih (lrem body r)

omit [BodyCodec Body] in
theorem cut_snoc (gone : List Body) (body : Body) (r : Redis Body) :
    cut (gone ++ [body]) r = lrem body (cut gone r) := by
  rw [← foldl_lrem, ← foldl_lrem, List.foldl_append]
  rfl

theorem takeDead_eq (id : String) (r : Redis Body) :
    takeDead id r = (cut (matching id r.dead) r, (matching id r.dead).head?) := by
  rw [takeDead, foldl_lrem]

/-- Removing every match leaves the other entries in their order. -/
theorem cut_matching (id : String) (r : Redis Body) :
    (cut (matching id r.dead) r).dead = r.dead.filter fun b => !deadOf id b := by
  show (matching id r.dead).foldl List.erase r.dead = _
  induction r.dead with
  | nil => rfl
  | cons body dead ih =>
    cases hbody : deadOf id body with
    | true =>
      rw [matching, List.filter_cons_of_pos hbody, List.foldl_cons, List.erase_cons_head,
        List.filter_cons_of_neg (by simp [hbody])]
      exact ih
    | false =>
      rw [matching, List.filter_cons_of_neg (by simp [hbody]),
        List.filter_cons_of_pos (by simp [hbody]), ← ih]
      have hnot : ∀ b ∈ matching id dead, b ∉ [body] := by
        intro b hb hmem
        rw [List.mem_singleton.mp hmem] at hb
        rw [deadOf_of_mem_matching hb] at hbody
        cases hbody
      exact foldl_erase_append hnot dead

end Dead

end ForgeQueue
