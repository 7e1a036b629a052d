import ForgeQueue.Model.Journal

/-!
# A reconciler on its own

`ReconcileOnce` and `ReconcileLoop` as functions of both stores, with nobody else
running. `clock id` is the reading of the clock when the row of task `id` is
materialized.
-/

namespace ForgeQueue

variable {Body : Type}

/-- `materialize`: true if the task was written. -/
def materialize (clock : ℚ) (t : Row Body) (r : Redis Body) : Redis Body × Bool :=
  materializeScript t.id (materializeScore clock t) t.payload r

/-- Both stores and what `ReconcileOnce` returns. -/
structure Sweep (Body : Type) where
  redis : Redis Body
  journal : List (Row Body)
  repaired : ℕ
  next : Key
  done : Bool

/-- One turn of the loop over the page. -/
def reconcileRow (clock : String → ℚ) (s : Sweep Body) (t : Row Body) : Sweep Body :=
  let m := materialize (clock t.id) t s.redis
  { s with
    redis := m.1
    journal := journalMaterialized t.id s.journal
    repaired := if m.2 then s.repaired + 1 else s.repaired
    next := t.key }

/-- `ReconcileOnce`. -/
def reconcileOnce (clock : String → ℚ) (cursor : Key) (r : Redis Body)
    (rows : List (Row Body)) : Sweep Body :=
  let page := active cursor reconcilePageSize rows
  page.foldl (reconcileRow clock)
    ⟨r, rows, 0, cursor, decide (page.length < reconcilePageSize)⟩

/-- The state of a `ReconcileLoop`. -/
structure Loop (Body : Type) where
  redis : Redis Body
  journal : List (Row Body)
  cursor : Key

/-- One tick: verify a page, then move on or wrap around. -/
def reconcileTick (s : Loop Body) (clock : String → ℚ) : Loop Body :=
  let res := reconcileOnce clock s.cursor s.redis s.journal
  ⟨res.redis, res.journal, if res.done then zeroCursor else res.next⟩

/-- `ReconcileLoop` for as many ticks as there are clocks. -/
def reconcileLoop (ticks : List (String → ℚ)) (s : Loop Body) : Loop Body :=
  ticks.foldl reconcileTick s

/-- What a full walk leaves, with the `repaired` count of each page. -/
structure Walked (Body : Type) where
  redis : Redis Body
  journal : List (Row Body)
  repaired : List ℕ

/-- A full walk: `ReconcileOnce` from the cursor on, each page from where the one before it
ended, until one is `done`. `none` if that takes more than `pages` pages. -/
def reconcileWalk (clock : String → ℚ) :
    ℕ → Key → Redis Body → List (Row Body) → Option (Walked Body)
  | 0, _, _, _ => none
  | pages + 1, cursor, r, rows =>
    let res := reconcileOnce clock cursor r rows
    if res.done then some ⟨res.redis, res.journal, [res.repaired]⟩
    else
      (reconcileWalk clock pages res.next res.redis res.journal).map fun w =>
        { w with repaired := res.repaired :: w.repaired }

end ForgeQueue
