import ForgeQueue.Model.World

/-!
# `RouteTask` when one of its steps fails

`RouteTask` returns the error of the first step that fails and undoes nothing. A failed
step has no effect. With the journal off the store is `durable.Nop`, whose calls neither do
anything nor fail.
-/

namespace ForgeQueue

open Base

/-- The fallible steps of `RouteTask`, in their order. -/
inductive RouteStep where
  /-- `store.Enqueue`. -/
  | enqueue
  /-- `SET task:<id>`. -/
  | set
  /-- `LPUSH` or `ZADD`. -/
  | push
  /-- `store.Materialized`. -/
  | materialized
  deriving DecidableEq

variable {Body : Type} [BodyCodec Body]

/-- `RouteTask`, where `fails` says which of its steps would fail. Returns the world it
leaves and the step whose error it returns, `none` for nil. `EnqueueTask` turns any error
into `codes.Internal`, "failed to route task". -/
def routeTask (journalOn : Bool) (fails : RouteStep → Bool) (clock pgNow : ℚ) (a : RouteArgs)
    (w : World Body) : World Body × Option RouteStep :=
  if journalOn && fails .enqueue then (w, some .enqueue)
  else
    let w := if journalOn then
        { w with journal := journalEnqueue pgNow (routeRow clock a) w.journal }
      else w
    if fails .set then (w, some .set)
    else
      let w := w.exec clock (.routeBody a)
      if fails .push then (w, some .push)
      else
        let w := w.exec clock (.routePush a clock)
        if journalOn && fails .materialized then (w, some .materialized)
        else
          (if journalOn then { w with journal := journalMaterialized a.id w.journal } else w,
            none)

/-- Nothing fails. -/
def noFailure : RouteStep → Bool := fun _ => false

/-- **The call that succeeds is the one of the world's runs.** Both leave the same stores. -/
theorem routeTask_noFailure {w : World Body} {a : RouteArgs} (clock pgNow : ℚ)
    (hnew : w.calls a.id = none) :
    ∃ w', runList World.step w [.routeStart a clock pgNow, .routeSet a.id, .routePush a.id,
        .routeDone a.id] = some w' ∧
      (routeTask true noFailure clock pgNow a w).1.engine = w'.engine ∧
      (routeTask true noFailure clock pgNow a w).1.journal = w'.journal := by
  simp [runList, World.step, World.routeStep, hnew, World.setCall, World.exec, routeTask,
    noFailure, Engine.exec, Redis.after, Redis.events]

end ForgeQueue
