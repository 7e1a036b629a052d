import ForgeQueue.Model.Engine
import Mathlib.Data.List.Sort

/-!
# The background loops

`recoveryLoop` and `promotionLoop` read their candidates from a sorted set with one
`ZRANGE key -inf now BYSCORE` under the pool's own clock and then send one script for each
candidate, in the order of the reply. The scripts check again under Redis's clock, and
other commands run between them, so a tick is its candidates together with the calls it
sends.

A sorted set of `Redis` is a partial map. `members` is the set's own list of members, which
`ZRANGE` goes through.
-/

namespace ForgeQueue

open Base

/-- The members of a sorted set, each once. -/
structure Members (m : String → Option ℚ) (members : List String) : Prop where
  nodup : members.Nodup
  mem : ∀ id, id ∈ members ↔ (m id).isSome = true

/-- Redis's order on a sorted set: by score, equal scores by member. -/
def rangeLE (m : String → Option ℚ) (a b : String) : Prop :=
  (m a).getD 0 < (m b).getD 0 ∨ (m a).getD 0 = (m b).getD 0 ∧ a ≤ b

instance (m : String → Option ℚ) : DecidableRel (rangeLE m) :=
  fun _ _ => inferInstanceAs (Decidable (_ ∨ _ ∧ _))

/-- `ZRANGE key -inf stop BYSCORE`. -/
def rangeByScore (m : String → Option ℚ) (stop : ℚ) (members : List String) : List String :=
  (members.filter fun id => (m id).any (· ≤ stop)).insertionSort (rangeLE m)

/-- The reply has the members with a score up to `stop`. -/
theorem mem_rangeByScore {m : String → Option ℚ} {stop : ℚ} {members : List String}
    (hm : Members m members) (id : String) :
    id ∈ rangeByScore m stop members ↔ ∃ score, m id = some score ∧ score ≤ stop := by
  unfold rangeByScore
  rw [List.mem_insertionSort, List.mem_filter, hm.mem]
  cases h : m id with
  | none => simp
  | some score => simp

variable {Body : Type}

/-- `findExpiredTasks`; `clock` is the pool's. -/
def findExpiredTasks (clock : ℚ) (members : List String) (r : Redis Body) : List String :=
  rangeByScore r.inflight clock members

/-- `findDueTasks`. -/
def findDueTasks (clock : ℚ) (members : List String) (r : Redis Body) : List String :=
  rangeByScore r.scheduled clock members

/-- The call `recoveryLoop` sends for a candidate. -/
def recoveryCall (base cap now : ℚ) (taskID : String) : Call Body :=
  ⟨now, .requeueOrDead taskID "" base cap⟩

/-- The call `promotionLoop` sends for a candidate. -/
def promotionCall (now : ℚ) (taskID : String) : Call Body :=
  ⟨now, .promoteTask taskID⟩

end ForgeQueue
