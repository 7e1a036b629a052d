import ForgeQueue.Logic.Gaps

/-!
# A deletion on its own

`deleteTask` reads the dead list once, removes the entries that decode to the task one by
one, each by its value and with count 1, and ends in a transaction. With repeated and equal
entries the removals do not hit the positions that were read, but what is left is the same
as if they had.
-/

namespace ForgeQueue

open Base

variable {Body : Type} [BodyCodec Body] [DecidableEq Body]

/-- The loop of `takeDead` over the bodies it has read: the first match is kept, and every
match is removed with `LREM 1`. -/
def takeDeadLoop (id : String) : List Body → Redis Body → Option Body → Redis Body × Option Body
  | [], r, found => (r, found)
  | body :: bodies, r, found =>
    if deadOf id body then
      takeDeadLoop id bodies (lrem body r) (match found with
        | none => some body
        | some first => some first)
    else takeDeadLoop id bodies r found

/-- The loop removes the matches and returns what it had found before, or the first of
them. -/
theorem takeDeadLoop_eq (id : String) (bodies : List Body) :
    ∀ (r : Redis Body) (found : Option Body),
      takeDeadLoop id bodies r found =
        ((matching id bodies).foldl (fun r body => lrem body r) r,
          found <|> (matching id bodies).head?) := by
  induction bodies with
  | nil =>
    intro r found
    cases found <;> rfl
  | cons body bodies ih =>
    intro r found
    cases hbody : deadOf id body with
    | true =>
      rw [matching, List.filter_cons_of_pos hbody]
      simp only [takeDeadLoop, hbody, if_true, ih]
      cases found <;> rfl
    | false =>
      rw [matching, List.filter_cons_of_neg (by simp [hbody])]
      simp only [takeDeadLoop, hbody, Bool.false_eq_true, if_false, ih]
      rfl

/-- What `takeDead` returns is the match nearest the head. -/
theorem takeDead_found (id : String) (r : Redis Body) (body : Body) :
    (takeDead id r).2 = some body ↔
      ∃ before after, r.dead = before ++ body :: after ∧ deadOf id body = true ∧
        ∀ b ∈ before, deadOf id b = false := by
  show (matching id r.dead).head? = some body ↔ _
  rw [matching, List.head?_filter, List.find?_eq_some_iff_append]
  constructor
  · rintro ⟨hbody, before, after, heq, hbefore⟩
    exact ⟨before, after, heq, hbody, fun b hb => by simpa using hbefore b hb⟩
  · rintro ⟨before, after, heq, hbody, hbefore⟩
    exact ⟨hbody, before, after, heq, fun b hb => by simpa using hbefore b hb⟩

/-- Everything of task `id` is gone from `r'`, and everything else is as it was in `r`, in
the order it was in. -/
structure Deleted (id : String) (r r' : Redis Body) : Prop where
  immediate : r'.immediate = r.immediate.filter (· ≠ id)
  dead : r'.dead = r.dead.filter fun b => !deadOf id b
  gone : r'.scheduled id = none ∧ r'.inflight id = none ∧ r'.leases id = none ∧
    r'.task id = none
  others : ∀ x, x ≠ id → SameAt x r r'
  paused : r'.paused = r.paused

/-- **A deletion is exact.** On every server, however often the task occurs in it and
whatever its dead list holds: `deleteTask` removes every occurrence of the task from the
ready list, the scheduled set, the inflight set, the leases and the bodies, and from the
dead list exactly the entries that decode to it; everything else stays, in its order. The
loop of `takeDead` returns the matching entry nearest the head. -/
theorem delete_exact (id : String) (r : Redis Body) :
    Deleted id r (deleteTask id r) ∧
      takeDeadLoop id r.dead r none = takeDead id r ∧
      ∀ body, (takeDead id r).2 = some body ↔
        ∃ before after, r.dead = before ++ body :: after ∧ deadOf id body = true ∧
          ∀ b ∈ before, deadOf id b = false := by
  have hcut : (takeDead id r).1 = cut (matching id r.dead) r := by
    rw [takeDead_eq]
  have hdelete : deleteTask id r = deleteTx id (cut (matching id r.dead) r) := by
    rw [deleteTask, hcut]
  refine ⟨?_, ?_, takeDead_found id r⟩
  · rw [hdelete]
    refine ⟨rfl, cut_matching id r, ⟨del_self _ _, del_self _ _, del_self _ _, del_self _ _⟩,
      ?_, rfl⟩
    intro x hx
    refine ⟨?_, del_of_ne _ hx, del_of_ne _ hx, del_of_ne _ hx, del_of_ne _ hx⟩
    show (r.immediate.filter (· ≠ id)).count x = r.immediate.count x
    exact List.count_filter (by simpa using hx)
  · rw [takeDeadLoop_eq]
    rfl

end ForgeQueue
