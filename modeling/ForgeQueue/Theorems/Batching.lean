import ForgeQueue.Logic.Gaps
import ForgeQueue.Model.Reply

/-!
# Batching does not change behaviour

A batch is one script; the same tokens in as many scripts of one claim each, and the same
acknowledgements one at a time, leave the same server and give the same answers.
-/

namespace ForgeQueue

open Base

variable {Body : Type}

/-! ## Claims -/

/-- One claim of batch size 1 after another, a token each, up to the first that comes back
empty. -/
def claimEach (expiry : ℚ) : List String → Redis Body → Redis Body × List (TaskClaim Body)
  | [], r => (r, [])
  | leaseID :: rest, r =>
    let one := claimBatch [leaseID] expiry r
    match one.2 with
    | [] => (one.1, [])
    | claims =>
      let next := claimEach expiry rest one.1
      (next.1, claims ++ next.2)

/-- The server after its head task was leased. -/
def Redis.leased (r : Redis Body) (taskID leaseID : String) (expiry : ℚ) (ready : List String) :
    Redis Body :=
  { r with
    immediate := ready
    inflight := put r.inflight taskID expiry
    leases := put r.leases taskID leaseID }

/-- A batch of one. -/
theorem claimBatch_one {r : Redis Body} {taskID : String} {ready : List String}
    (hp : r.paused = false) (hr : r.immediate = taskID :: ready) (leaseID : String) (expiry : ℚ) :
    claimBatch [leaseID] expiry r =
      (r.leased taskID leaseID expiry ready, [⟨taskID, leaseID, r.task taskID⟩]) := by
  rw [claimBatch_eq hp, hr]
  simp [claimLoop, hr, Redis.leased]

/-- A longer batch is its first claim and the batch of the rest. -/
theorem claimBatch_cons {r : Redis Body} {taskID : String} {ready : List String}
    (hp : r.paused = false) (hr : r.immediate = taskID :: ready) (leaseID : String)
    (rest : List String) (expiry : ℚ) :
    claimBatch (leaseID :: rest) expiry r =
      ((claimBatch rest expiry (r.leased taskID leaseID expiry ready)).1,
        ⟨taskID, leaseID, r.task taskID⟩ ::
          (claimBatch rest expiry (r.leased taskID leaseID expiry ready)).2) := by
  rw [claimBatch_eq hp, claimBatch_eq (r := r.leased taskID leaseID expiry ready) hp, hr]
  simp [claimLoop, hr, Redis.leased]

/-- An empty ready list hands out nothing. -/
theorem claimBatch_empty {r : Redis Body} (hr : r.immediate = []) (leaseIDs : List String)
    (expiry : ℚ) : claimBatch leaseIDs expiry r = (r, []) := by
  cases hp : r.paused with
  | true => exact claimBatch_paused hp leaseIDs expiry
  | false =>
    rw [claimBatch_eq hp, hr]
    cases leaseIDs with
    | nil => rfl
    | cons leaseID rest => simp [claimLoop, hr]

/-- **Refinement.** A batch is its claims one after another. -/
theorem claimBatch_eq_claimEach (expiry : ℚ) (leaseIDs : List String) :
    ∀ r : Redis Body, claimBatch leaseIDs expiry r = claimEach expiry leaseIDs r := by
  induction leaseIDs with
  | nil =>
    intro r
    cases hp : r.paused with
    | true => rw [claimBatch_paused hp]; rfl
    | false => rw [claimBatch_eq hp]; rfl
  | cons leaseID rest ih =>
    intro r
    cases hp : r.paused with
    | true => rw [claimEach, claimBatch_paused hp, claimBatch_paused hp]
    | false =>
      cases hr : r.immediate with
      | nil => rw [claimEach, claimBatch_empty hr, claimBatch_empty hr]
      | cons taskID ready =>
        rw [claimEach, claimBatch_one hp hr, claimBatch_cons hp hr, ih]
        rfl

/-- **The reply is read back as it was meant.** Go never panics on it, and its claims are
those of `claimBatch`. -/
theorem claimReply_claimScript (leaseIDs : List String) (expiry : ℚ) (r : Redis Body) :
    claimReply leaseIDs (claimScript leaseIDs expiry r).2 =
      some (claimBatch leaseIDs expiry r).2 ∧
    (claimScript leaseIDs expiry r).1 = (claimBatch leaseIDs expiry r).1 := by
  cases hp : r.paused with
  | true =>
    rw [claimBatch_paused hp, claimScript, if_pos hp]
    exact ⟨rfl, rfl⟩
  | false =>
    have hids := claimLoop_ids expiry leaseIDs r
    by_cases hempty : (claimLoop expiry leaseIDs r).2.length = 0
    · rw [claimScript, hp, claimBatch, hp]
      simp only [Bool.false_eq_true, if_false, if_pos hempty]
      rw [List.length_eq_zero_iff] at hempty
      rw [hempty, List.zipWith_nil_left]
      exact ⟨rfl, trivial⟩
    · rw [claimScript, hp, claimBatch, hp]
      simp only [Bool.false_eq_true, if_false, if_neg hempty, claimReply, and_true]
      have hlen : (claimLoop expiry leaseIDs r).2.length ≤ leaseIDs.length := by
        rw [hids]
        exact List.length_take_le _ _
      have hloop := decodeClaims_flatten leaseIDs (claimLoop expiry leaseIDs r).1.task
        (claimLoop expiry leaseIDs r).2 0 (by omega)
      rwa [Nat.mul_zero, List.drop_zero] at hloop

/-- The claim at a position carries the token at that position. -/
theorem claimBatch_token (leaseIDs : List String) (expiry : ℚ) (r : Redis Body) (i : ℕ)
    (claim : TaskClaim Body) (h : (claimBatch leaseIDs expiry r).2[i]? = some claim) :
    leaseIDs[i]? = some claim.leaseID := by
  cases hp : r.paused with
  | true =>
    rw [claimBatch_paused hp] at h
    cases h
  | false =>
    rw [claimBatch_eq hp, List.getElem?_zipWith_eq_some] at h
    obtain ⟨taskID, leaseID, -, hl, rfl⟩ := h
    exact hl

/-- A batch leaves the lease of a task it does not pop alone. -/
theorem claimBatch_leases_of_not_mem {id : String} (expiry : ℚ) (leaseIDs : List String) :
    ∀ r : Redis Body, id ∉ (claimBatch leaseIDs expiry r).2.map TaskClaim.taskID →
      (claimBatch leaseIDs expiry r).1.leases id = r.leases id := by
  induction leaseIDs with
  | nil =>
    intro r _
    rw [claimBatch_eq_claimEach]
    rfl
  | cons leaseID rest ih =>
    intro r hid
    cases hp : r.paused with
    | true => rw [claimBatch_paused hp]
    | false =>
      cases hr : r.immediate with
      | nil => rw [claimBatch_empty hr]
      | cons taskID ready =>
        rw [claimBatch_cons hp hr] at hid ⊢
        rw [List.map_cons, List.mem_cons, not_or] at hid
        exact (ih _ hid.2).trans (put_of_ne _ _ hid.1)

/-- If no task is popped twice, every claim of the batch is the current one of its task. -/
theorem claimBatch_current (expiry : ℚ) (leaseIDs : List String) :
    ∀ r : Redis Body, ((claimBatch leaseIDs expiry r).2.map TaskClaim.taskID).Nodup →
      ∀ claim ∈ (claimBatch leaseIDs expiry r).2,
        (claimBatch leaseIDs expiry r).1.leases claim.taskID = some claim.leaseID := by
  induction leaseIDs with
  | nil =>
    intro r _ claim hclaim
    rw [claimBatch_eq_claimEach] at hclaim
    cases hclaim
  | cons leaseID rest ih =>
    intro r hnodup claim hclaim
    cases hp : r.paused with
    | true =>
      rw [claimBatch_paused hp] at hclaim
      cases hclaim
    | false =>
      cases hr : r.immediate with
      | nil =>
        rw [claimBatch_empty hr] at hclaim
        cases hclaim
      | cons taskID ready =>
        rw [claimBatch_cons hp hr] at hnodup hclaim ⊢
        rw [List.map_cons, List.nodup_cons] at hnodup
        rcases List.mem_cons.mp hclaim with rfl | hrest
        · -- later claims are of other tasks, so they keep the first one's lease
          exact (claimBatch_leases_of_not_mem expiry rest _ hnodup.1).trans (put_self _ _ _)
        · exact ih _ hnodup.2 claim hrest

/-! ## Acknowledgements -/

/-- Acknowledge the pairs in scripts of their own. -/
def ackEach : List (String × String) → Redis Body → Redis Body × List String
  | [], r => (r, [])
  | p :: rest, r =>
    let one := ackBatch [p] r
    let next := ackEach rest one.1
    (next.1, one.2 ++ next.2)

/-- The server a pair finds at its turn. -/
def atTurn (pairs : List (String × String)) (r : Redis Body) (i : ℕ) : Redis Body :=
  (ackEach (pairs.take i) r).1

/-- The pairs whose token is the current one at their turn. -/
def currentAtTurn (pairs : List (String × String)) (r : Redis Body) : List (String × String) :=
  (pairs.zipIdx.filter fun p => (atTurn pairs r p.2).leases p.1.1 = some p.1.2).map Prod.fst

/-- A longer list is its first pair and the rest. -/
theorem ackBatch_cons (p : String × String) (rest : List (String × String)) (r : Redis Body) :
    ackBatch (p :: rest) r =
      ((ackBatch rest (ackBatch [p] r).1).1,
        (ackBatch [p] r).2 ++ (ackBatch rest (ackBatch [p] r).1).2) := by
  obtain ⟨taskID, leaseID⟩ := p
  by_cases h : r.leases taskID = some leaseID
  · simp [ackBatch, h]
  · simp [ackBatch, h]

/-- **Refinement.** A list of acknowledgements is its pairs one after another. -/
theorem ackBatch_eq_ackEach (pairs : List (String × String)) :
    ∀ r : Redis Body, ackBatch pairs r = ackEach pairs r := by
  induction pairs with
  | nil => exact fun _ => rfl
  | cons p rest ih =>
    intro r
    rw [ackBatch_cons, ackEach, ih]

/-- The first pair's turn comes first, the others follow it. -/
theorem currentAtTurn_cons (p : String × String) (rest : List (String × String))
    (r : Redis Body) :
    currentAtTurn (p :: rest) r =
      (if r.leases p.1 = some p.2 then [p] else []) ++
        currentAtTurn rest (ackBatch [p] r).1 := by
  have hlater : ∀ i, atTurn (p :: rest) r (i + 1) = atTurn rest (ackBatch [p] r).1 i :=
    fun _ => rfl
  have hfirst : atTurn (p :: rest) r 0 = r := rfl
  rw [currentAtTurn, currentAtTurn, List.zipIdx_cons', List.filter_cons]
  simp only [List.filter_map, hfirst, Function.comp_def]
  by_cases h : r.leases p.1 = some p.2
  · simp [h, hlater, Function.comp_def]
  · simp [h, hlater, Function.comp_def]

/-- The acknowledged ids are those of the pairs that are current at their turn. -/
theorem ackBatch_currentAtTurn (pairs : List (String × String)) :
    ∀ r : Redis Body, (ackBatch pairs r).2 = (currentAtTurn pairs r).map Prod.fst := by
  induction pairs with
  | nil => exact fun _ => rfl
  | cons p rest ih =>
    intro r
    rw [ackBatch_cons, currentAtTurn_cons, List.map_append, ih]
    obtain ⟨taskID, leaseID⟩ := p
    by_cases h : r.leases taskID = some leaseID
    · simp [ackBatch, h]
    · simp [ackBatch, h]

/-! ## The result -/

/-- **Batching is transparent.** On every server, with every list of tokens: a batch leaves
the server and gives the claims that as many claims of batch size 1 would, up to the first
empty one; the script's flat reply decodes in Go to exactly those claims, the one at
position `i` with token `i`; if no task is popped twice, every claim is current afterwards.
And a list of acknowledgements, sent flat, does what its pairs do one by one, returning the
ids of those that are current at their turn. -/
theorem batching_transparent (leaseIDs : List String) (expiry : ℚ)
    (pairs : List (String × String)) (r : Redis Body) :
    (claimBatch leaseIDs expiry r = claimEach expiry leaseIDs r ∧
      (claimScript leaseIDs expiry r).1 = (claimBatch leaseIDs expiry r).1 ∧
      claimReply leaseIDs (claimScript leaseIDs expiry r).2 =
        some (claimBatch leaseIDs expiry r).2 ∧
      (∀ (i : ℕ) (claim : TaskClaim Body), (claimBatch leaseIDs expiry r).2[i]? = some claim →
        leaseIDs[i]? = some claim.leaseID) ∧
      (((claimBatch leaseIDs expiry r).2.map TaskClaim.taskID).Nodup →
        ∀ claim ∈ (claimBatch leaseIDs expiry r).2,
          (claimBatch leaseIDs expiry r).1.leases claim.taskID = some claim.leaseID)) ∧
    ackScript (ackArgs pairs) r = ackBatch pairs r ∧
    ackBatch pairs r = ackEach pairs r ∧
    (ackBatch pairs r).2 = (currentAtTurn pairs r).map Prod.fst := by
  obtain ⟨hreply, hstate⟩ := claimReply_claimScript leaseIDs expiry r
  refine ⟨⟨claimBatch_eq_claimEach expiry leaseIDs r, hstate, hreply,
    claimBatch_token leaseIDs expiry r, claimBatch_current expiry leaseIDs r⟩, ?_⟩
  exact ⟨ackScript_ackArgs pairs r, ackBatch_eq_ackEach pairs r, ackBatch_currentAtTurn pairs r⟩

/-- Two ready tasks, one of them without its body. -/
def twoReady : Redis String :=
  { Redis.empty with immediate := ["a", "b"], task := put nothing "a" "body" }

theorem batching_transparent_two :
    ((claimBatch ["L1", "L2", "L3"] 30 twoReady).2.map TaskClaim.taskID).Nodup ∧
    ∀ claim ∈ (claimBatch ["L1", "L2", "L3"] 30 twoReady).2,
      (claimBatch ["L1", "L2", "L3"] 30 twoReady).1.leases claim.taskID =
        some claim.leaseID := by
  have hnodup : ((claimBatch ["L1", "L2", "L3"] 30 twoReady).2.map TaskClaim.taskID).Nodup := by
    decide +kernel
  obtain ⟨⟨-, -, -, -, hcurrent⟩, -⟩ :=
    batching_transparent ["L1", "L2", "L3"] 30 [] twoReady
  exact ⟨hnodup, hcurrent hnodup⟩

end ForgeQueue
