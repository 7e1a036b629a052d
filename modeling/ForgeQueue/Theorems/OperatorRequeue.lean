import ForgeQueue.Theorems.OperatorAgreement

/-!
# The operator's requeue

`requeue` run alone. Its transaction clears the task from the scheduled set, the inflight
set and the leases and pushes it on the ready list, but does not look whether the ready list
has it already (`deleteTask` does, with an `LREM`). Otherwise it does what it is for
(`requeue_correct_iff_not_ready`).

When a command fails half way, what `takeDead` removed is not put back: a failed call loses
nothing exactly if it failed before the first removal (`failed_requeue_keeps_dead_iff`).
-/

namespace ForgeQueue

open Base

/-! ## What it is for -/

section

variable {Body : Type} [BodyCodec Body]

/-- The body `requeue` works on: `task:<id>`, or the newest dead copy when that is gone. -/
def foundBody (id : String) (r : Redis Body) : Option Body :=
  (r.task id).or (matching id r.dead).head?

/-- What may become of the body: with a reset, a body that decodes gets the count `0` and
keeps its other fields; otherwise it stays. -/
def ResetOf (resetAttempts : Bool) (old new : Body) : Prop :=
  match resetAttempts, apiUnmarshal old with
  | true, some tm => apiUnmarshal new = some { tm with attempts := 0 }
  | _, _ => new = old

/-- Nothing changed for the other tasks. -/
structure SameElsewhere (id : String) (r r' : Redis Body) : Prop where
  ready : r'.immediate.filter (· ≠ id) = r.immediate.filter (· ≠ id)
  dead : r'.dead.filter (fun b => !deadOf id b) = r.dead.filter fun b => !deadOf id b
  scheduled : ∀ x, x ≠ id → r'.scheduled x = r.scheduled x
  inflight : ∀ x, x ≠ id → r'.inflight x = r.inflight x
  leases : ∀ x, x ≠ id → r'.leases x = r.leases x
  task : ∀ x, x ≠ id → r'.task x = r.task x
  paused : r'.paused = r.paused

/-- `r'` is `r` with the task put back on the ready list. -/
structure Requeued (id : String) (resetAttempts : Bool) (r r' : Redis Body) : Prop where
  ready : r'.immediate.count id = 1
  scheduled : r'.scheduled id = none
  inflight : r'.inflight id = none
  leases : r'.leases id = none
  dead : ∀ b ∈ r'.dead, deadOf id b = false
  body : ∃ old new, foundBody id r = some old ∧ r'.task id = some new ∧
    ResetOf resetAttempts old new
  elsewhere : SameElsewhere id r r'

/-- A reply `true` means that the task was requeued, a reply `false` that nothing changed. -/
def RequeueCorrect (id : String) (resetAttempts : Bool) (r : Redis Body) :
    Redis Body × Bool → Prop
  | (r', true) => Requeued id resetAttempts r r'
  | (r', false) => r' = r

/-! ## What it does -/

/-- The body `requeue` leaves behind. -/
def rewritten (resetAttempts : Bool) (old : Body) : Body :=
  if resetAttempts then
    match apiUnmarshal old with
    | some tm => apiMarshal { tm with attempts := 0 }
    | none => old
  else old

theorem requeueBody_eq {id : String} {r : Redis Body} {old : Body} (h : r.task id = some old)
    (resetAttempts : Bool) : requeueBody id resetAttempts r =
      requeueTx id (r.setBody id (rewritten resetAttempts old)) := by
  have hself : r.setBody id old = r := by
    rw [Redis.setBody, put_eq_self h]
  cases resetAttempts with
  | false =>
    show requeueTx id r = requeueTx id (r.setBody id old)
    rw [hself]
  | true =>
    simp only [requeueBody, resetBody, rewritten, h, if_true, Option.bind_some]
    cases apiUnmarshal old with
    | some tm => rfl
    | none =>
      show requeueTx id r = requeueTx id (r.setBody id old)
      rw [hself]

end

section

variable {Body : Type} [BodyCodec Body] [DecidableEq Body]

/-- A call that finds a body clears the dead list, writes the body and ends in the
transaction. -/
theorem requeue_eq_of_found {id : String} {r : Redis Body} {old : Body}
    (h : foundBody id r = some old) (resetAttempts : Bool) :
    requeue id resetAttempts r =
      (requeueTx id ((cut (matching id r.dead) r).setBody id (rewritten resetAttempts old)),
        true) := by
  have htask : (cut (matching id r.dead) r).task = r.task := rfl
  rw [requeue, takeDead_eq]
  dsimp only
  rw [htask]
  unfold foundBody at h
  cases hbody : r.task id with
  | some body =>
    rw [hbody, Option.some_or] at h
    have hold : (cut (matching id r.dead) r).task id = some old := by rw [htask, hbody, h]
    dsimp only
    rw [requeueBody_eq hold]
  | none =>
    rw [hbody, Option.none_or] at h
    rw [h]
    have hold : ((cut (matching id r.dead) r).setBody id old).task id = some old :=
      put_self _ _ _
    show (requeueBody id resetAttempts ((cut (matching id r.dead) r).setBody id old), true) = _
    rw [requeueBody_eq hold]
    simp only [Redis.setBody, put_put]

/-- A call that finds none changes nothing. -/
theorem requeue_eq_of_not_found {id : String} {r : Redis Body} (h : foundBody id r = none)
    (resetAttempts : Bool) : requeue id resetAttempts r = (r, false) := by
  obtain ⟨htask, hdead⟩ := Option.or_eq_none_iff.mp h
  have hnil : matching id r.dead = [] := List.head?_eq_none_iff.mp hdead
  have hcut : (cut [] r).task id = none := htask
  rw [requeue, takeDead_eq, hnil]
  dsimp only
  rw [hcut]
  rfl

end

section

variable {Body : Type} [ApiCodec Body]

theorem rewritten_resetOf (resetAttempts : Bool) (old : Body) :
    ResetOf resetAttempts old (rewritten resetAttempts old) := by
  cases resetAttempts with
  | false => rfl
  | true =>
    unfold ResetOf rewritten
    cases hold : apiUnmarshal old with
    | none => rfl
    | some tm =>
      -- the reset count is an `int32`, like the retry limit that was decoded
      have hfits : ({ tm with attempts := 0 } : ApiTask).Fits :=
        ⟨(ApiCodec.apiUnmarshal_fits old tm hold).1, show inInt32 0 by decide⟩
      exact ApiCodec.apiUnmarshal_apiMarshal _ hfits

variable [DecidableEq Body]

/-- A call that finds a body does all it is for, except that it counts one more occurrence
in the ready list than there was. -/
theorem requeued_iff {id : String} {r : Redis Body} {old : Body}
    (h : foundBody id r = some old) (resetAttempts : Bool) :
    Requeued id resetAttempts r (requeue id resetAttempts r).1 ↔ id ∉ r.immediate := by
  rw [requeue_eq_of_found h]
  constructor
  · intro hreq
    have hcount : (id :: r.immediate).count id = 1 := hreq.ready
    rw [List.count_cons_self] at hcount
    exact List.count_eq_zero.mp (by omega)
  · intro hready
    refine ⟨?_, del_self _ _, del_self _ _, del_self _ _, ?_, ?_, ?_⟩
    · show (id :: r.immediate).count id = 1
      rw [List.count_cons_self, List.count_eq_zero.mpr hready]
    · show ∀ b ∈ (cut (matching id r.dead) r).dead, deadOf id b = false
      rw [cut_matching]
      intro b hb
      simpa using (List.mem_filter.mp hb).2
    · exact ⟨old, rewritten resetAttempts old, h, put_self _ _ _, rewritten_resetOf _ _⟩
    · refine ⟨?_, ?_, fun x hx => del_of_ne _ hx, fun x hx => del_of_ne _ hx,
        fun x hx => del_of_ne _ hx, fun x hx => put_of_ne _ _ hx, rfl⟩
      · show (id :: r.immediate).filter (· ≠ id) = _
        rw [List.filter_cons_of_neg (by simp)]
      · show (cut (matching id r.dead) r).dead.filter _ = _
        rw [cut_matching, List.filter_filter]
        simp only [Bool.and_self]

/-- **Requeue.** In every state, a `requeue` that runs alone does what its reply says if and
only if the task is not on the ready list already, or has neither a body nor a dead entry. -/
theorem requeue_correct_iff_not_ready (id : String) (resetAttempts : Bool) (r : Redis Body) :
    RequeueCorrect id resetAttempts r (requeue id resetAttempts r) ↔
      (id ∈ r.immediate → r.task id = none ∧ ∀ b ∈ r.dead, deadOf id b = false) := by
  have hnone : foundBody id r = none ↔
      r.task id = none ∧ ∀ b ∈ r.dead, deadOf id b = false := by
    rw [foundBody, Option.or_eq_none_iff, List.head?_eq_none_iff, matching,
      List.filter_eq_nil_iff]
    simp
  rw [← hnone]
  cases hfound : foundBody id r with
  | none =>
    rw [requeue_eq_of_not_found hfound]
    exact ⟨fun _ _ => rfl, fun _ => rfl⟩
  | some old =>
    have htrue : (requeue id resetAttempts r).2 = true := by rw [requeue_eq_of_found hfound]
    have hcorrect : RequeueCorrect id resetAttempts r (requeue id resetAttempts r) ↔
        Requeued id resetAttempts r (requeue id resetAttempts r).1 := by
      rw [← Prod.mk.eta (p := requeue id resetAttempts r), htrue]
      rfl
    rw [hcorrect, requeued_iff hfound]
    simp

end

/-- A retry of the dead-lettered job does what it is for. -/
theorem requeue_correct_iff_not_ready_buried :
    RequeueCorrect "job" true buriedJob (requeue "job" true buriedJob) :=
  (requeue_correct_iff_not_ready "job" true buriedJob).mpr fun h => absurd h List.not_mem_nil

/-- **Twice on the ready list.** A requeue of the ready job answers `true` and pushes it a
second time. -/
theorem requeue_doubles_ready_job :
    readyJob.immediate = ["job"] ∧ (requeue "job" false readyJob).2 = true ∧
      (requeue "job" false readyJob).1.immediate = ["job", "job"] ∧
      ¬ RequeueCorrect "job" false readyJob (requeue "job" false readyJob) := by
  refine ⟨by decide +kernel, by decide +kernel, by decide +kernel, fun h => ?_⟩
  have htrue : requeue "job" false readyJob = ((requeue "job" false readyJob).1, true) := by
    rw [← Prod.mk.eta (p := requeue "job" false readyJob)]
    congr 1
  rw [htrue] at h
  have hcount : (requeue "job" false readyJob).1.immediate.count "job" = 1 := h.ready
  exact absurd hcount (by decide +kernel)

/-! ## When a command fails -/

section

variable {Body : Type} [BodyCodec Body] [DecidableEq Body]

/-- No dead entry of the task is gone, and the task is in the same queues as before. -/
structure LosesNothing (id : String) (r r' : Redis Body) : Prop where
  dead : ∀ b, deadOf id b = true → r.dead.count b ≤ r'.dead.count b
  ready : id ∈ r'.immediate ↔ id ∈ r.immediate
  scheduled : (r'.scheduled id).isSome = (r.scheduled id).isSome
  inflight : (r'.inflight id).isSome = (r.inflight id).isSome
  leases : (r'.leases id).isSome = (r.leases id).isSome

/-- The two states differ in the bodies and in the entries `gone`, removed from the dead
list. -/
structure OnlyCut (gone : List Body) (r r' : Redis Body) : Prop where
  dead : r'.dead = (cut gone r).dead
  immediate : r'.immediate = r.immediate
  scheduled : r'.scheduled = r.scheduled
  inflight : r'.inflight = r.inflight
  leases : r'.leases = r.leases

omit [BodyCodec Body] in
theorem onlyCut_cut (gone : List Body) (r : Redis Body) : OnlyCut gone r (cut gone r) :=
  ⟨rfl, rfl, rfl, rfl, rfl⟩

omit [BodyCodec Body] in
/-- Where the removals of `takeDead` end: `gone` was removed, and either a command failed on
the next entry or nothing is left. -/
theorem removeEach_cases (fails : ℕ → Bool) (todo : List Body) : ∀ (i : ℕ) (r : Redis Body),
    ∃ gone rest, todo = gone ++ rest ∧ (∀ j < gone.length, fails (i + j) = false) ∧
      (rest ≠ [] ∧ fails (i + gone.length) = true ∧
          removeEach fails i todo r = (cut gone r, none) ∨
        rest = [] ∧ removeEach fails i todo r = (cut gone r, some (i + gone.length))) := by
  induction todo with
  | nil => exact fun i r => ⟨[], [], rfl, fun j hj => absurd hj (Nat.not_lt_zero j), .inr ⟨rfl, rfl⟩⟩
  | cons body todo ih =>
    intro i r
    cases hi : fails i with
    | true =>
      refine ⟨[], body :: todo, rfl, fun j hj => absurd hj (Nat.not_lt_zero j),
        .inl ⟨List.cons_ne_nil _ _, hi, ?_⟩⟩
      rw [removeEach, if_pos hi]
      rfl
    | false =>
      have hstep : removeEach fails i (body :: todo) r =
          removeEach fails (i + 1) todo (lrem body r) := by
        rw [removeEach, if_neg (by simp [hi])]
      obtain ⟨gone, rest, rfl, hall, hend⟩ := ih (i + 1) (lrem body r)
      have hidx : i + 1 + gone.length = i + (body :: gone).length := by
        rw [List.length_cons]
        omega
      refine ⟨body :: gone, rest, rfl, fun j hj => ?_, ?_⟩
      · cases j with
        | zero => exact hi
        | succ j =>
          have hj' := hall j (by simpa using hj)
          rwa [Nat.add_assoc, Nat.add_comm 1 j] at hj'
      · rw [hstep, ← hidx]
        exact hend

omit [DecidableEq Body] in
/-- A failed transaction has no effect, and what precedes it writes bodies only. -/
theorem requeueBodyUnder_failed {fails : ℕ → Bool} {i : ℕ} {id : String}
    {resetAttempts : Bool} {r : Redis Body}
    (h : (requeueBodyUnder fails i id resetAttempts r).2 ≠ .ok true) :
    (requeueBodyUnder fails i id resetAttempts r).1 = r ∨
      ∃ body, (requeueBodyUnder fails i id resetAttempts r).1 = r.setBody id body := by
  have hcommit : ∀ (j : ℕ) (r' : Redis Body), (commitUnder fails j id r').2 ≠ .ok true →
      (commitUnder fails j id r').1 = r' := by
    intro j r' hne
    unfold commitUnder at hne ⊢
    split
    · rfl
    · rename_i hj
      rw [if_neg hj] at hne
      exact absurd rfl hne
  unfold requeueBodyUnder at h ⊢
  split
  · rename_i hreset
    rw [if_pos hreset] at h
    split
    · rename_i hi
      rw [if_pos hi] at h
      exact .inl (hcommit _ _ h)
    · rename_i hi
      rw [if_neg hi] at h
      cases hbody : resetBody id r with
      | none =>
        rw [hbody] at h
        exact .inl (hcommit _ _ h)
      | some body =>
        rw [hbody] at h
        dsimp only at h ⊢
        split
        · rename_i hset
          rw [if_pos hset] at h
          exact .inl (hcommit _ _ h)
        · rename_i hset
          rw [if_neg hset] at h
          exact .inr ⟨body, hcommit _ _ h⟩
  · rename_i hreset
    rw [if_neg hreset] at h
    exact .inl (hcommit _ _ h)

theorem onlyCut_requeueBodyUnder {fails : ℕ → Bool} {i : ℕ} {id : String}
    {resetAttempts : Bool} {gone : List Body} {r r' : Redis Body} (hcut : OnlyCut gone r r')
    (h : (requeueBodyUnder fails i id resetAttempts r').2 ≠ .ok true) :
    OnlyCut gone r (requeueBodyUnder fails i id resetAttempts r').1 := by
  obtain heq | ⟨body, heq⟩ := requeueBodyUnder_failed h
  · rw [heq]
    exact hcut
  · rw [heq]
    exact ⟨hcut.dead, hcut.immediate, hcut.scheduled, hcut.inflight, hcut.leases⟩

/-- What a failed call has removed: a front segment of the matches, empty exactly if it had
nothing to remove or failed before the first removal. -/
theorem requeueUnder_failed {fails : ℕ → Bool} {id : String} {resetAttempts : Bool}
    {r : Redis Body} (h : (requeueUnder fails id resetAttempts r).2 ≠ .ok true) :
    ∃ gone, OnlyCut gone r (requeueUnder fails id resetAttempts r).1 ∧
      gone <+: matching id r.dead ∧
      (gone = [] ↔ matching id r.dead = [] ∨ fails 0 = true ∨ fails 1 = true) := by
  unfold requeueUnder at h ⊢
  cases h0 : fails 0 with
  | true =>
    rw [if_pos rfl]
    exact ⟨[], onlyCut_cut [] r, List.nil_prefix, by simp⟩
  | false =>
    rw [h0] at h
    simp only [Bool.false_eq_true, if_false, false_or] at h ⊢
    obtain ⟨gone, rest, hmatch, hall, hend⟩ :=
      removeEach_cases fails (matching id r.dead) 1 r
    refine ⟨gone, ?_, ⟨rest, hmatch.symm⟩, ?_⟩
    · rcases hend with ⟨-, -, heq⟩ | ⟨rfl, heq⟩
      · rw [heq]
        exact onlyCut_cut gone r
      · -- every match is removed; the call fails later
        rw [heq] at h ⊢
        have hcut := onlyCut_cut gone r
        dsimp only at h ⊢
        split
        · rename_i hlook
          rw [if_pos hlook] at h
          cases hdead : (matching id r.dead).head? with
          | none => exact hcut
          | some body =>
            rw [hdead] at h
            dsimp only at h ⊢
            split
            · exact hcut
            · rename_i hset
              rw [if_neg hset] at h
              exact onlyCut_requeueBodyUnder
                ⟨hcut.dead, hcut.immediate, hcut.scheduled, hcut.inflight, hcut.leases⟩ h
        · rename_i hlook
          rw [if_neg hlook] at h
          exact onlyCut_requeueBodyUnder hcut h
    · cases gone with
      | nil =>
        refine ⟨fun _ => ?_, fun _ => rfl⟩
        rcases hend with ⟨-, hfail, -⟩ | ⟨rfl, -⟩
        · exact .inr hfail
        · exact .inl hmatch
      | cons body gone =>
        have h1 : fails 1 = false := hall 0 (Nat.succ_pos _)
        rw [hmatch, h1]
        simp

omit [BodyCodec Body] in
/-- A removal is felt in the count of what was removed. -/
theorem count_foldl_erase_lt {body : Body} {gone dead : List Body} (h : body ∈ dead) :
    ((body :: gone).foldl List.erase dead).count body < dead.count body := by
  have hsub : (gone.foldl List.erase (dead.erase body)).Sublist (dead.erase body) := by
    rw [← List.diff_eq_foldl]
    exact List.diff_sublist _ _
  have hpos : 0 < dead.count body := List.count_pos_iff.mpr h
  have hle := hsub.count_le body
  rw [List.count_erase_self] at hle
  rw [List.foldl_cons]
  omega

/-- **Failed requeues.** A `requeue` that returns an error or `false`, whichever of its
commands failed, loses nothing if and only if there was no dead entry to remove, or the
listing or the first removal failed. -/
theorem failed_requeue_keeps_dead_iff {fails : ℕ → Bool} {id : String} {resetAttempts : Bool}
    {r : Redis Body} (h : (requeueUnder fails id resetAttempts r).2 ≠ .ok true) :
    LosesNothing id r (requeueUnder fails id resetAttempts r).1 ↔
      matching id r.dead = [] ∨ fails 0 = true ∨ fails 1 = true := by
  obtain ⟨gone, hcut, ⟨rest, hmatch⟩, hnil⟩ := requeueUnder_failed h
  rw [← hnil]
  constructor
  · intro hloses
    cases gone with
    | nil => rfl
    | cons body gone =>
      have hbody : body ∈ matching id r.dead := by
        rw [← hmatch]
        exact List.mem_append_left _ List.mem_cons_self
      have hkept := hloses.dead body (deadOf_of_mem_matching hbody)
      rw [hcut.dead] at hkept
      have hlt : (cut (body :: gone) r).dead.count body < r.dead.count body :=
        count_foldl_erase_lt (List.mem_filter.mp hbody).1
      omega
  · rintro rfl
    refine ⟨fun b _ => ?_, ?_, ?_, ?_, ?_⟩
    · rw [hcut.dead]
      exact Nat.le_refl _
    · rw [hcut.immediate]
    · rw [hcut.scheduled]
    · rw [hcut.inflight]
    · rw [hcut.leases]

end

/-- A failed listing loses nothing. -/
theorem failed_requeue_keeps_dead_iff_listing :
    LosesNothing "job" buriedJob (requeueUnder (fun i => i == 0) "job" true buriedJob).1 :=
  (failed_requeue_keeps_dead_iff (by decide +kernel)).mpr (.inr (.inl rfl))

/-- **A dead task vanishes.** The only copy of a dead-lettered task is removed from the dead
list and the transaction, the last command, fails: the task is in no queue. -/
theorem failed_requeue_loses_dead_job :
    matching "job" buriedJob.dead = buriedJob.dead ∧ buriedJob.dead.length = 1 ∧
      (requeueUnder (fun i => i == 5) "job" true buriedJob).2 = .error .commandFailed ∧
      (requeueUnder (fun i => i == 5) "job" true buriedJob).1.dead = [] ∧
      ¬ (requeueUnder (fun i => i == 5) "job" true buriedJob).1.Live "job" ∧
      ¬ LosesNothing "job" buriedJob
        (requeueUnder (fun i => i == 5) "job" true buriedJob).1 := by
  refine ⟨by decide +kernel, by decide +kernel, by decide +kernel, by decide +kernel,
    by decide +kernel, fun h => ?_⟩
  have hcount := h.dead (marshal (routeData sampleArgs)) (by decide +kernel)
  exact absurd hcount (by decide +kernel)

end ForgeQueue
