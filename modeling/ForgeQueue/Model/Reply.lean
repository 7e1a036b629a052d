import ForgeQueue.Model.Redis

/-!
# What a batch looks like on the wire

`claimBatch` and `ackBatch` are modelled elsewhere by what they do to the server. Here is
how a batch travels: the claim script flattens ids and bodies into one array, and Go pairs
them with the tokens by position; an acknowledgement is sent as one flat argument list.
`decodeClaims_flatten` and `ackScript_ackArgs` connect the two views.
-/

namespace ForgeQueue

open Base

variable {Body : Type}

/-- An element of the claim script's reply. Lua's `false`, which is what `GET` answers for
a missing key, arrives in Go as `nil`. -/
inductive ReplyValue (Body : Type) where
  | taskID (id : String)
  | body (b : Body)
  | nil

/-- The reply to `GET task:<id>` inside a script. -/
def ReplyValue.ofGet : Option Body → ReplyValue Body
  | some b => .body b
  | none => .nil

/-- The claim script. Its reply is `none` for the empty string, which stands for a paused
or an empty queue, and otherwise `id1, body1, id2, body2, …`. -/
def claimScript (leaseIDs : List String) (expiry : ℚ) (r : Redis Body) :
    Redis Body × Option (List (ReplyValue Body)) :=
  if r.paused then (r, none)
  else
    let popped := claimLoop expiry leaseIDs r
    if popped.2.length = 0 then (popped.1, none)
    else (popped.1, some (popped.2.flatMap fun id => [.taskID id, .ofGet (popped.1.task id)]))

/-- `taskID`, from an even position. `none` is a panic of the type assertion. -/
def ReplyValue.asTaskID : ReplyValue Body → Option String
  | .nil => some ""
  | .taskID id => some id
  | .body _ => none

/-- `body`, from an odd position. -/
def ReplyValue.asBody : ReplyValue Body → Option (Option Body)
  | .nil => some none
  | .body b => some (some b)
  | .taskID _ => none

/-- Go's loop over the reply from position `i` on: two values and the token at `i / 2` for
each claim. `none` is a panic. -/
def decodeClaims (leaseIDs : List String) :
    ℕ → List (ReplyValue Body) → Option (List (TaskClaim Body))
  | i, v :: w :: values => do
    let taskID ← v.asTaskID
    let body ← w.asBody
    let leaseID ← leaseIDs[i / 2]?
    let claims ← decodeClaims leaseIDs (i + 2) values
    return ⟨taskID, leaseID, body⟩ :: claims
  | _, _ => some []

/-- What Go makes of the script's reply. -/
def claimReply (leaseIDs : List String) :
    Option (List (ReplyValue Body)) → Option (List (TaskClaim Body))
  | none => some []
  | some values => decodeClaims leaseIDs 0 values

/-- The arguments of an `ackBatch`: `taskID1, leaseID1, taskID2, leaseID2, …`. -/
def ackArgs (pairs : List (String × String)) : List String :=
  pairs.flatMap fun p => [p.1, p.2]

/-- The acknowledgement script's loop over its flat arguments. A task id without a token
compares with `nil` and is not acknowledged. -/
def ackScript : List String → Redis Body → Redis Body × List String
  | taskID :: leaseID :: args, r =>
    if r.leases taskID = some leaseID then
      let next := ackScript args { r.release taskID with task := del r.task taskID }
      (next.1, taskID :: next.2)
    else ackScript args r
  | _, r => (r, [])

/-! ## The two views agree -/

/-- A missing body survives the trip as a missing body. -/
theorem asBody_ofGet (b : Option Body) : (ReplyValue.ofGet b).asBody = some b := by
  cases b with
  | none => rfl
  | some b => rfl

/-- **Loop.** From position `2 * i` on, the ids are paired with the tokens from `i` on. -/
theorem decodeClaims_flatten (leaseIDs : List String) (read : String → Option Body)
    (ids : List String) :
    ∀ i, i + ids.length ≤ leaseIDs.length →
      decodeClaims leaseIDs (2 * i)
          (ids.flatMap fun id => [.taskID id, .ofGet (read id)]) =
        some (List.zipWith (fun id leaseID => ⟨id, leaseID, read id⟩) ids (leaseIDs.drop i)) := by
  induction ids with
  | nil =>
    intro i _
    simp [decodeClaims]
  | cons id ids ih =>
    intro i hi
    have hlt : i < leaseIDs.length := by
      simp only [List.length_cons] at hi
      omega
    have hrest := ih (i + 1) (by simp only [List.length_cons] at hi; omega)
    rw [Nat.mul_add_one] at hrest
    rw [List.flatMap_cons, List.drop_eq_getElem_cons hlt, List.zipWith_cons_cons]
    simp only [List.cons_append, List.nil_append, decodeClaims, ReplyValue.asTaskID,
      asBody_ofGet, Nat.mul_div_cancel_left i Nat.two_pos, List.getElem?_eq_getElem hlt, hrest,
      Option.bind_eq_bind, Option.bind_some, Option.pure_def]

/-- The flat arguments carry the pairs. -/
theorem ackScript_ackArgs (pairs : List (String × String)) :
    ∀ r : Redis Body, ackScript (ackArgs pairs) r = ackBatch pairs r := by
  induction pairs with
  | nil => exact fun _ => rfl
  | cons p rest ih =>
    intro r
    obtain ⟨taskID, leaseID⟩ := p
    have hargs : ackArgs ((taskID, leaseID) :: rest) = taskID :: leaseID :: ackArgs rest := rfl
    rw [hargs, ackScript, ackBatch, ih, ih]

end ForgeQueue
