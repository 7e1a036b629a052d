import ForgeQueue.Model.JsonBody
import ForgeQueue.Model.LuaNumbers

/-!
# What `requeueOrDead` does with a body that is no task

The script releases the lease first and then reads the body with dynamic types. A body
that does not decode, or is no table, goes to the dead list. A table whose counter cannot
be added to, or whose budget cannot be compared, makes the script raise, and a count of
`2 ^ 53` or more with budget left sends it into a loop without end. What it has done by then
stays done: the lease is gone and the task is in no structure.
-/

namespace ForgeQueue

open Base

/-! ## Reading a table after a write -/

/-- A list index is no field name that starts with a letter. -/
theorem toString_ne_max_retries (n : ℕ) : toString n ≠ "max_retries" := by
  intro h
  have hm : 'm' ∈ Nat.toDigits 10 n := by
    have hlist : (toString n).toList = Nat.toDigits 10 n := by
      rw [Nat.toString_eq_ofList_toDigits, String.toList_ofList]
    rw [← hlist, h]
    decide
  exact absurd (Nat.isDigit_of_mem_toDigits (by decide) (by decide) hm) (by decide)

theorem find?_setKey_ne {key name : String} (h : name ≠ key) (v : Json)
    (fields : List (String × Json)) :
    (setKey key v fields).find? (fun f => f.1 == name) =
      fields.find? (fun f => f.1 == name) := by
  have hne : (key == name) = false := beq_eq_false_iff_ne.mpr h.symm
  induction fields with
  | nil => simp [setKey, List.find?, hne]
  | cons f rest ih =>
    by_cases hf : f.1 = key
    · simp [setKey, List.find?, hf, hne]
    · simp [setKey, List.find?, hf, ih]

/-- Writing the counter leaves the budget as it is. -/
theorem Json.setField_max_retries {t : Json} (ht : t.isTable = true) (v : Json) :
    (t.setField "attempts" v).field "max_retries" = t.field "max_retries" := by
  cases t with
  | obj fields =>
    simp only [Json.setField, Json.field]
    rw [find?_setKey_ne (by decide)]
  | arr items =>
    simp only [Json.setField, Json.field, Option.map_eq_none_iff, List.find?_eq_none]
    intro f hf
    rcases List.mem_append.mp hf with hf | hf
    · obtain ⟨i, hi, rfl⟩ := List.mem_mapIdx.mp hf
      simpa using toString_ne_max_retries (i + 1)
    · obtain rfl := List.mem_singleton.mp hf
      exact Bool.false_ne_true
  | null => cases ht
  | bool b => cases ht
  | num q => cases ht
  | str s => cases ht

/-! ## The two ends of the script -/

section

variable {Body : Type} [BodyCodec Body]

/-- The body with a new count; `none` when the table cannot be written back. -/
def countedBody (task : Json) (attempts : ℚ) : Option Body :=
  cjsonEncode (task.setField "attempts" (.num attempts))

/-- The body with its counter bumped; `none` also when the counter cannot be added to. -/
def bumpedBody (task : Json) : Option Body :=
  (luaArith Body (task.field "attempts")).bind fun counter =>
    countedBody task (toDouble (counter + 1))

/-- The budget is used up by the new count, or the backoff is computed in time. -/
def Settles (attempts maxRetries : ℚ) : Prop :=
  (0 < maxRetries ∧ maxRetries ≤ attempts) ∨ attempts < 2 ^ 53

/-- The script gets through the table: its counter can be added to and written back, its
budget can be compared, and the new count uses it up or is below `2 ^ 53`. -/
def Passes (Body : Type) [BodyCodec Body] (task : Json) : Prop :=
  ∃ counter maxRetries, luaArith Body (task.field "attempts") = some counter ∧
    luaCompare (task.field "max_retries") = some maxRetries ∧
    (countedBody task (toDouble (counter + 1)) : Option Body).isSome ∧
    Settles (toDouble (counter + 1)) maxRetries

/-- The body is no table, or one that the script gets through. -/
def Readable (body : Body) : Prop :=
  ∀ task, cjsonDecode body = some task → task.isTable = true → Passes Body task

/-- The task is in the scheduled set, or its body is on the dead list, as it was or as it
is now. -/
def Remains (id : String) (body : Body) (r : Redis Body) : Prop :=
  (r.scheduled id).isSome ∨ ∃ b ∈ r.dead, b = body ∨ r.task id = some b

/-- It was so before the call, whatever the call does: the task is in the scheduled set
while it is in flight, or its body is already on the dead list. -/
def RemainsAnyway (id : String) (body : Body) (r : Redis Body) : Prop :=
  (r.scheduled id).isSome ∨ ∃ b ∈ r.dead, b = body ∨
    ∃ task, cjsonDecode body = some task ∧ task.isTable = true ∧ bumpedBody task = some b

/-- The second half of the script leaves the leases as they are. -/
theorem retryOrBuryLua_leases (now base cap : ℚ) (id : String) (r : Redis Body) :
    (retryOrBuryLua now base cap id r).1.leases = r.leases := by
  unfold retryOrBuryLua
  split
  · rfl
  split
  · rfl
  split
  · rfl
  split
  · rfl
  dsimp only
  split
  · rfl
  split
  · rfl
  split
  · rfl
  split <;> rfl

variable {id : String} {r : Redis Body} {body : Body} {task : Json} (now base cap : ℚ)

/-- What is no table goes to the dead list as it is. -/
theorem retryOrBuryLua_corrupt (hb : r.task id = some body)
    (h : ∀ task, cjsonDecode body = some task → task.isTable = false) :
    retryOrBuryLua now base cap id r = ({ r with dead := body :: r.dead }, some .dead) := by
  unfold retryOrBuryLua
  rw [hb]
  dsimp only
  cases hd : cjsonDecode body with
  | none => rfl
  | some task => exact if_pos (h task hd)

/-- A table that the script gets through ends in the scheduled set or on the dead list. -/
theorem retryOrBuryLua_passes (hb : r.task id = some body) (hd : cjsonDecode body = some task)
    (ht : task.isTable = true) (h : Passes Body task) :
    ((retryOrBuryLua now base cap id r).1.scheduled id).isSome ∨
      ∃ b ∈ (retryOrBuryLua now base cap id r).1.dead,
        (retryOrBuryLua now base cap id r).1.task id = some b := by
  obtain ⟨counter, maxRetries, ha, hm, hsome, hsettles⟩ := h
  obtain ⟨newBody, hnew⟩ := Option.isSome_iff_exists.mp hsome
  have htable : ¬ task.isTable = false := by simp [ht]
  unfold countedBody at hnew
  unfold retryOrBuryLua
  rw [hb]
  dsimp only
  rw [hd]
  dsimp only
  rw [if_neg htable, ha]
  dsimp only
  rw [hnew]
  dsimp only
  rw [Json.setField_max_retries ht, hm]
  dsimp only
  split
  · exact .inr ⟨newBody, List.mem_cons_self, put_self _ _ _⟩
  · next hleft =>
    rw [if_pos (loopEnds_iff.mpr (hsettles.resolve_left hleft))]
    left
    dsimp only
    rw [put_self]
    rfl

/-- On any other table the script raises or does not end, and scheduled set and dead list are
as before. -/
theorem retryOrBuryLua_stops (hb : r.task id = some body) (hd : cjsonDecode body = some task)
    (ht : task.isTable = true) (h : ¬ Passes Body task) :
    (retryOrBuryLua now base cap id r).1.scheduled = r.scheduled ∧
      (retryOrBuryLua now base cap id r).1.dead = r.dead ∧
      (retryOrBuryLua now base cap id r).1.task id = some ((bumpedBody task).getD body) := by
  have htable : ¬ task.isTable = false := by simp [ht]
  unfold retryOrBuryLua
  rw [hb]
  dsimp only
  rw [hd]
  dsimp only
  rw [if_neg htable]
  unfold bumpedBody countedBody
  cases ha : luaArith Body (task.field "attempts") with
  | none => exact ⟨rfl, rfl, hb⟩
  | some counter =>
    rw [Option.bind_some]
    dsimp only
    cases hnew : (cjsonEncode (task.setField "attempts" (.num (toDouble (counter + 1)))) :
        Option Body) with
    | none => exact ⟨rfl, rfl, hb⟩
    | some newBody =>
      dsimp only
      rw [Json.setField_max_retries ht]
      cases hm : luaCompare (task.field "max_retries") with
      | none => exact ⟨rfl, rfl, put_self _ _ _⟩
      | some maxRetries =>
        have hopen : ¬ Settles (toDouble (counter + 1)) maxRetries := fun hsettles =>
          h ⟨counter, maxRetries, ha, hm, Option.isSome_of_eq_some hnew, hsettles⟩
        rw [Settles, not_or, ← @loopEnds_iff _ base] at hopen
        dsimp only
        rw [if_neg hopen.1, if_neg hopen.2]
        exact ⟨rfl, rfl, put_self _ _ _⟩

/-- **No task vanishes** from a call that releases its lease, exactly when the script gets
through the body, or there is another trace of the task anyway. -/
theorem requeueOrDead_keeps_task_iff_readable {now base cap : ℚ} {id leaseID : String}
    {r : Redis Body} {body : Body} (hin : (r.inflight id).isSome) (hbody : r.task id = some body)
    (hout : (requeueOrDeadLua now base cap id leaseID r).1.inflight id = none) :
    (requeueOrDeadLua now base cap id leaseID r).1.leases id = none ∧
      (Remains id body (requeueOrDeadLua now base cap id leaseID r).1 ↔
        Readable body ∨ RemainsAnyway id body r) := by
  have hguard : requeueGuard now id leaseID r = none := by
    cases hg : requeueGuard now id leaseID r with
    | none => rfl
    | some status =>
      rw [requeueOrDeadLua, hg] at hout
      rw [hout] at hin
      cases hin
  have heq : requeueOrDeadLua now base cap id leaseID r =
      retryOrBuryLua now base cap id (r.release id) := by
    rw [requeueOrDeadLua, hguard]
  have hb : (r.release id).task id = some body := hbody
  rw [heq]
  refine ⟨?_, ?_⟩
  · rw [retryOrBuryLua_leases]
    exact del_self _ _
  by_cases hread : Readable body
  · refine iff_of_true ?_ (.inl hread)
    by_cases htable : ∃ task, cjsonDecode body = some task ∧ task.isTable = true
    · obtain ⟨task, hd, ht⟩ := htable
      exact (retryOrBuryLua_passes now base cap hb hd ht (hread task hd ht)).imp_right
        fun ⟨b, hdead, hnow⟩ => ⟨b, hdead, .inr hnow⟩
    · rw [retryOrBuryLua_corrupt now base cap hb fun task hd => by
        rw [← Bool.not_eq_true]
        exact fun ht => htable ⟨task, hd, ht⟩]
      exact .inr ⟨body, List.mem_cons_self, .inl rfl⟩
  · rw [or_iff_right hread]
    obtain ⟨task, hd, ht, hstop⟩ : ∃ task, cjsonDecode body = some task ∧
        task.isTable = true ∧ ¬ Passes Body task := by
      simpa [Readable] using hread
    obtain ⟨hs, hdead, htask⟩ :=
      retryOrBuryLua_stops now base cap hb hd ht hstop
    unfold Remains RemainsAnyway
    rw [hs, hdead, htask]
    refine or_congr_right (exists_congr fun b => and_congr_right fun _ => ?_)
    constructor
    · rintro (rfl | hnow)
      · exact .inl rfl
      · cases hbump : (bumpedBody task : Option Body) with
        | none =>
          rw [hbump] at hnow
          exact .inl (Option.some.inj hnow).symm
        | some newBody =>
          rw [hbump] at hnow
          exact .inr ⟨task, hd, ht, hbump.trans hnow⟩
    · rintro (rfl | ⟨task', hd', -, hbump⟩)
      · exact .inl rfl
      · obtain rfl := Option.some.inj (hd.symm.trans hd')
        rw [hbump]
        exact .inr rfl

end

/-! ## Two bodies -/

/-- A server on which only `job` is in flight, with the given body. -/
def inFlight (body : JsonBody) : Redis JsonBody :=
  { (Redis.empty : Redis JsonBody) with
    inflight := put nothing "job" 130
    leases := put nothing "job" "L1"
    task := put nothing "job" body }

/-- A text that is no JSON stays on the dead list. -/
theorem requeueOrDead_keeps_task_iff_readable_text :
    Remains "job" (.text "oops") (requeueOrDeadLua 110 1 60 "job" "L1" (inFlight (.text "oops"))).1 := by
  refine (requeueOrDead_keeps_task_iff_readable (by decide) rfl (by decide)).2.mpr (.inl ?_)
  intro task htask
  cases htask

/-- A task record whose counter is `null`. -/
def nullCounter : JsonBody :=
  .doc (.obj [("id", .str "job"), ("task_type", .str "email"), ("payload", .null),
    ("max_retries", .num 2), ("attempts", .null)])

/-- **A task vanishes.** The workers read the record; the script raises on its counter after it
has released the lease, and the task is in no structure. -/
theorem requeueOrDead_loses_null_counter :
    (unmarshal nullCounter).isSome ∧ ((inFlight nullCounter).inflight "job").isSome ∧
      (inFlight nullCounter).task "job" = some nullCounter ∧
      (requeueOrDeadLua 110 1 60 "job" "L1" (inFlight nullCounter)).1.inflight "job" = none ∧
      (requeueOrDeadLua 110 1 60 "job" "L1" (inFlight nullCounter)).1.leases "job" = none ∧
      (requeueOrDeadLua 110 1 60 "job" "L1" (inFlight nullCounter)).1.immediate = [] ∧
      ¬ Remains "job" nullCounter
        (requeueOrDeadLua 110 1 60 "job" "L1" (inFlight nullCounter)).1 := by
  refine ⟨by decide, by decide, rfl, by decide, by decide, by decide, ?_⟩
  rintro (hs | ⟨b, hb, -⟩)
  · exact absurd hs (by decide)
  · exact absurd hb (by
      have hdead : (requeueOrDeadLua 110 1 60 "job" "L1" (inFlight nullCounter)).1.dead = [] := by
        decide
      rw [hdead]
      exact List.not_mem_nil)

/-- A record whose count is the last one that can be bumped, without a budget: the script does
not end, and the task is in no structure either. -/
example : let body : JsonBody := .doc (.obj [("attempts", .num (2 ^ 53 - 1))])
    (requeueOrDeadLua 110 1 60 "job" "L1" (inFlight body)).2 = none ∧
      (requeueOrDeadLua 110 1 60 "job" "L1" (inFlight body)).1.scheduled "job" = none ∧
      (requeueOrDeadLua 110 1 60 "job" "L1" (inFlight body)).1.dead = [] := by
  decide +kernel

end ForgeQueue
