import ForgeQueue.Base.Delay
import ForgeQueue.Logic.Gaps
import ForgeQueue.Model.JsonBody

/-!
# The operator's requeue among the workers

`requeue` is a sequence of commands, so a worker's script can run in any of its gaps.
Most scripts can be moved in front of the whole call, which then looks atomic. What
cannot be moved: a dead-lettering of the task after the dead list was read, an
acknowledgement after the body was found, and a claim or a failed attempt of the task
after the call has written its body.
-/

namespace ForgeQueue

open Base

section

variable {Body : Type} [BodyCodec Body]

/-- The script puts no new body of the task on the dead list. -/
def SparesDead (id : String) (r : Redis Body) (c : Script) : Prop :=
  matching id (Script.run r c).1.dead = matching id r.dead

/-- The script leaves what the reset would write. -/
def SparesReset (id : String) (r : Redis Body) (c : Script) : Prop :=
  resetBody id (Script.run r c).1 = resetBody id r

/-- What may run before the command `pc` of a `requeue` call. -/
def MayRun (id : String) (resetAttempts : Bool) (r : Redis Body) (c : Script) :
    RequeuePc Body → Prop
  -- nothing was read yet, or the call is over
  | .range | .done _ => True
  -- the dead list was read
  | .remove _ _ | .look _ | .restore _ => SparesDead id r c
  -- the body was found, or restored
  | .read written =>
    SparesDead id r c ∧ ¬ c.Acks id r ∧ (written = true → ¬ c.Touches id r)
  -- the body to write was computed
  | .reset _ written =>
    SparesDead id r c ∧ ¬ c.Acks id r ∧ SparesReset id r c ∧
      (written = true → ¬ c.Touches id r)
  | .commit written =>
    SparesDead id r c ∧ ¬ c.Acks id r ∧
      (resetAttempts = true → written = false → SparesReset id r c) ∧
      (written = true → ¬ c.Touches id r)

/-- The condition on an interleaving. -/
def GapOk (id : String) (resetAttempts : Bool)
    (g : Gapped (Redis Body) (RequeuePc Body) (ScriptReply Body)) : GapAct Script → Prop
  | .own => True
  | .other c => MayRun id resetAttempts g.store c g.pc

/-- A worker's script as a command of somebody else. -/
def scriptCmd (c : Script) (r : Redis Body) : Redis Body × ScriptReply Body := Script.run r c

/-- The result of a finished call. -/
def RequeuePc.result : RequeuePc Body → Option Bool
  | .done ok => some ok
  | _ => none

end

variable {Body : Type} [BodyCodec Body] [DecidableEq Body]

/-- A `requeue` call. -/
def requeueOp (id : String) (resetAttempts : Bool) :
    Operation (Redis Body) (RequeuePc Body) Bool where
  start := .range
  step := requeueStep id resetAttempts
  result := RequeuePc.result

/-! ## The dead list -/

/-- **Scripts and removals commute.** A script that spares the dead entries of the task
can run before the removals of the call. -/
theorem run_cut {id : String} {gone : List Body} {r : Redis Body} {c : Script}
    (hgone : ∀ b ∈ gone, deadOf id b = true) (hspares : SparesDead id (cut gone r) c) :
    Script.run (cut gone r) c = (cut gone (Script.run r c).1, (Script.run r c).2) ∧
      matching id (Script.run r c).1.dead = matching id r.dead := by
  obtain ⟨added, hadded⟩ := c.run_withDead r
  have hself : (Script.run r c).1.dead = added ++ r.dead := by
    have h : Script.run r c = _ := hadded r.dead
    rw [h]
    rfl
  have hrun := hadded (gone.foldl List.erase r.dead)
  -- no added entry belongs to the task
  have hnone : matching id added = [] := by
    have h : matching id (Script.run (cut gone r) c).1.dead = matching id (cut gone r).dead :=
      hspares
    rw [cut, hrun, withDead_dead, withDead_dead, matching, List.filter_append] at h
    exact List.append_left_eq_self.mp h
  have hnot : ∀ b ∈ gone, b ∉ added := by
    intro b hb hmem
    have hin : b ∈ matching id added := List.mem_filter.mpr ⟨hmem, hgone b hb⟩
    rw [hnone] at hin
    cases hin
  refine ⟨?_, ?_⟩
  · rw [cut, hrun, cut, hself, foldl_erase_append hnot]
  · rw [hself, matching, List.filter_append]
    show matching id added ++ matching id r.dead = _
    rw [hnone]
    rfl

/-! ## The delayed call -/

/-- The call found the body, or restored it from the dead list. -/
def Found (id : String) (r₀ r : Redis Body) : Bool → Prop
  | false => (r₀.task id).isSome ∧ r = cut (matching id r₀.dead) r₀
  | true => r₀.task id = none ∧ ∃ body, (matching id r₀.dead).head? = some body ∧
      r = (cut (matching id r₀.dead) r₀).setBody id body

/-- The call, started in `r₀` and run without interruption, has come to `r` and its next
command. -/
def Delayed (id : String) (resetAttempts : Bool) (r₀ r : Redis Body) : RequeuePc Body → Prop
  | .range => r = r₀
  | .remove todo deadBody => deadBody = (matching id r₀.dead).head? ∧
      ∃ gone, matching id r₀.dead = gone ++ todo ∧ r = cut gone r₀
  | .look deadBody =>
      deadBody = (matching id r₀.dead).head? ∧ r = cut (matching id r₀.dead) r₀
  | .restore body => (matching id r₀.dead).head? = some body ∧ r₀.task id = none ∧
      r = cut (matching id r₀.dead) r₀
  | .read written => resetAttempts = true ∧ Found id r₀ r written
  | .reset body written =>
      resetAttempts = true ∧ Found id r₀ r written ∧ resetBody id r = some body
  | .commit written =>
      (Found id r₀ r written ∧ (resetAttempts = true → resetBody id r = none)) ∨
      (written = true ∧ resetAttempts = true ∧ ∃ r₁ written₁ body,
        Found id r₀ r₁ written₁ ∧ resetBody id r₁ = some body ∧ r = r₁.setBody id body)
  | .done _ => False

/-- The command after the removals. -/
theorem Delayed.afterRange {id : String} {resetAttempts : Bool} {r₀ r : Redis Body}
    {todo : List Body} (gone : List Body) (hsplit : matching id r₀.dead = gone ++ todo)
    (hr : r = cut gone r₀) :
    Delayed id resetAttempts r₀ r (.afterRange todo (matching id r₀.dead).head?) := by
  cases todo with
  | nil =>
    rw [List.append_nil] at hsplit
    exact ⟨rfl, hsplit ▸ hr⟩
  | cons body todo => exact ⟨rfl, gone, hsplit, hr⟩

/-- The command once the body exists. -/
theorem Delayed.afterLook {id : String} {resetAttempts : Bool} {r₀ r : Redis Body}
    {written : Bool} (h : Found id r₀ r written) :
    Delayed id resetAttempts r₀ r (.afterLook resetAttempts written) := by
  cases resetAttempts with
  | false => exact .inl ⟨h, nofun⟩
  | true => exact ⟨rfl, h⟩

/-- The call's own steps. -/
theorem Delayed.own {id : String} {resetAttempts : Bool} {r₀ r : Redis Body}
    {pc : RequeuePc Body} (h : Delayed id resetAttempts r₀ r pc)
    (hopen : (requeueStep id resetAttempts r pc).2.result = none) :
    Delayed id resetAttempts r₀ (requeueStep id resetAttempts r pc).1
      (requeueStep id resetAttempts r pc).2 := by
  cases pc with
  | range =>
    obtain rfl : r = r₀ := h
    exact Delayed.afterRange [] rfl rfl
  | remove todo deadBody =>
    obtain ⟨rfl, gone, hsplit, rfl⟩ := h
    cases todo with
    | nil =>
      rw [List.append_nil] at hsplit
      exact ⟨rfl, by rw [hsplit]; rfl⟩
    | cons body todo =>
      refine Delayed.afterRange (gone ++ [body]) ?_ (cut_snoc _ _ _).symm
      rw [hsplit, List.append_assoc]
      rfl
  | look deadBody =>
    obtain ⟨rfl, rfl⟩ := h
    cases hb : r₀.task id with
    | some body =>
      have hb' : (cut (matching id r₀.dead) r₀).task id = some body := hb
      simp only [requeueStep, hb']
      exact Delayed.afterLook ⟨by rw [hb]; rfl, rfl⟩
    | none =>
      have hb' : (cut (matching id r₀.dead) r₀).task id = none := hb
      cases hhead : (matching id r₀.dead).head? with
      | none =>
        simp only [requeueStep, hb', hhead] at hopen
        cases hopen
      | some body =>
        simp only [requeueStep, hb']
        exact ⟨hhead, hb, rfl⟩
  | restore body =>
    obtain ⟨hhead, hnone, rfl⟩ := h
    exact Delayed.afterLook ⟨hnone, body, hhead, rfl⟩
  | read written =>
    obtain ⟨hreset, hfound⟩ := h
    cases hb : resetBody id r with
    | none =>
      simp only [requeueStep, hb]
      exact .inl ⟨hfound, fun _ => hb⟩
    | some body =>
      simp only [requeueStep, hb]
      exact ⟨hreset, hfound, hb⟩
  | reset body written =>
    obtain ⟨hreset, hfound, hbody⟩ := h
    exact .inr ⟨rfl, hreset, r, written, body, hfound, hbody, rfl⟩
  | commit written => cases hopen
  | done ok => exact h.elim

/-- Found, the rest of the call is `requeueBody`. -/
theorem Found.whole {id : String} {r₀ r : Redis Body} {written : Bool}
    (h : Found id r₀ r written) (resetAttempts : Bool) :
    requeue id resetAttempts r₀ = (requeueBody id resetAttempts r, true) := by
  rw [requeue, takeDead_eq]
  cases written with
  | false =>
    obtain ⟨hsome, rfl⟩ := h
    obtain ⟨body, hbody⟩ := Option.isSome_iff_exists.mp hsome
    have hb : (cut (matching id r₀.dead) r₀).task id = some body := hbody
    simp only [hb]
  | true =>
    obtain ⟨hnone, body, hhead, rfl⟩ := h
    have hb : (cut (matching id r₀.dead) r₀).task id = none := hnone
    simp only [hb, hhead]
    rfl

/-- The last step of the call. -/
theorem Delayed.end {id : String} {resetAttempts ok : Bool} {r₀ r : Redis Body}
    {pc : RequeuePc Body} (h : Delayed id resetAttempts r₀ r pc)
    (hdone : (requeueStep id resetAttempts r pc).2.result = some ok) :
    requeue id resetAttempts r₀ = ((requeueStep id resetAttempts r pc).1, ok) := by
  cases pc with
  | look deadBody =>
    -- no body anywhere
    obtain ⟨rfl, rfl⟩ := h
    cases hb : r₀.task id with
    | some body =>
      have hb' : (cut (matching id r₀.dead) r₀).task id = some body := hb
      simp only [requeueStep, hb', RequeuePc.afterLook] at hdone
      split at hdone <;> cases hdone
    | none =>
      have hb' : (cut (matching id r₀.dead) r₀).task id = none := hb
      cases hhead : (matching id r₀.dead).head? with
      | none =>
        simp only [requeueStep, hb', hhead] at hdone ⊢
        cases hdone
        rw [requeue, takeDead_eq]
        simp only [hb', hhead]
      | some body =>
        simp only [requeueStep, hb', hhead] at hdone
        cases hdone
  | commit written =>
    cases hdone
    rcases h with ⟨hfound, hno⟩ | ⟨-, hreset, r₁, written₁, body, hfound, hbody, rfl⟩
    · rw [hfound.whole, requeueBody]
      cases resetAttempts with
      | false => rfl
      | true => simp only [hno rfl, if_true]; rfl
    · rw [hfound.whole, requeueBody, hreset]
      simp only [hbody, if_true]
      rfl
  | remove todo deadBody =>
    cases todo with
    | nil => cases hdone
    | cons body todo =>
      simp only [requeueStep, RequeuePc.afterRange] at hdone
      split at hdone <;> cases hdone
  | range =>
    simp only [requeueStep, RequeuePc.afterRange] at hdone
    split at hdone <;> cases hdone
  | restore body =>
    simp only [requeueStep, RequeuePc.afterLook] at hdone
    split at hdone <;> cases hdone
  | read written =>
    simp only [requeueStep] at hdone
    split at hdone <;> cases hdone
  | reset body written => cases hdone
  | done ok => exact h.elim

/-! ## Scripts in the gaps -/

/-- A script that spares the dead list moves in front of a call that found the body, if
it neither acknowledges the task nor touches a body the call has written. -/
theorem Found.script {id : String} {r₀ r : Redis Body} {written : Bool} {c : Script}
    (h : Found id r₀ r written) (hdead : SparesDead id r c) (hack : ¬ c.Acks id r)
    (htouch : written = true → ¬ c.Touches id r) :
    Found id (Script.run r₀ c).1 (Script.run r c).1 written ∧
      (Script.run r₀ c).2 = (Script.run r c).2 := by
  cases written with
  | false =>
    obtain ⟨hsome, rfl⟩ := h
    obtain ⟨hrun, hmatch⟩ := run_cut (fun b hb => deadOf_of_mem_matching hb) hdead
    have hack' : ¬ c.Acks id r₀ := hack
    refine ⟨⟨?_, ?_⟩, by rw [hrun]⟩
    · rw [Script.run_task.2 hack']; exact hsome
    · rw [hrun, hmatch]
  | true =>
    obtain ⟨hnone, body, hhead, rfl⟩ := h
    have htouch' : ¬ c.Touches id (cut (matching id r₀.dead) r₀) := htouch rfl
    have hset := Script.run_setBody body htouch'
    have hdead' : SparesDead id (cut (matching id r₀.dead) r₀) c := by
      unfold SparesDead at hdead ⊢
      rw [hset] at hdead
      exact hdead
    obtain ⟨hrun, hmatch⟩ := run_cut (fun b hb => deadOf_of_mem_matching hb) hdead'
    refine ⟨⟨Script.run_task.1 hnone, body, ?_, ?_⟩, ?_⟩
    · rw [hmatch]; exact hhead
    · rw [hset, hrun, hmatch]
    · rw [hset, hrun]

omit [DecidableEq Body] in
/-- A script that does not touch the task leaves what the reset would write. -/
theorem resetBody_untouched {id : String} {r : Redis Body} {c : Script}
    (h : ¬ c.Touches id r) : resetBody id (Script.run r c).1 = resetBody id r := by
  unfold resetBody
  rw [Script.run_untouched h]

/-- **Gap.** A script that may run in a gap may as well run before the whole call. -/
theorem Delayed.script {id : String} {resetAttempts : Bool} {r₀ r : Redis Body}
    {pc : RequeuePc Body} {c : Script} (h : Delayed id resetAttempts r₀ r pc)
    (hok : MayRun id resetAttempts r c pc) :
    Delayed id resetAttempts (Script.run r₀ c).1 (Script.run r c).1 pc ∧
      (Script.run r₀ c).2 = (Script.run r c).2 := by
  cases pc with
  | range =>
    obtain rfl : r = r₀ := h
    exact ⟨rfl, rfl⟩
  | remove todo deadBody =>
    obtain ⟨rfl, gone, hsplit, rfl⟩ := h
    have hgone : ∀ b ∈ gone, deadOf id b = true := by
      intro b hb
      have hmem : b ∈ matching id r₀.dead := by
        rw [hsplit]
        exact List.mem_append_left _ hb
      exact deadOf_of_mem_matching hmem
    obtain ⟨hrun, hmatch⟩ := run_cut hgone hok
    rw [hrun]
    exact ⟨⟨by rw [hmatch], gone, by rw [hmatch, hsplit], rfl⟩, rfl⟩
  | look deadBody =>
    obtain ⟨rfl, rfl⟩ := h
    obtain ⟨hrun, hmatch⟩ := run_cut (fun b hb => deadOf_of_mem_matching hb) hok
    rw [hrun]
    exact ⟨⟨by rw [hmatch], by rw [hmatch]⟩, rfl⟩
  | restore body =>
    obtain ⟨hhead, hnone, rfl⟩ := h
    obtain ⟨hrun, hmatch⟩ := run_cut (fun b hb => deadOf_of_mem_matching hb) hok
    rw [hrun]
    exact ⟨⟨by rw [hmatch]; exact hhead, Script.run_task.1 hnone, by rw [hmatch]⟩, rfl⟩
  | read written =>
    obtain ⟨hreset, hfound⟩ := h
    obtain ⟨hdead, hack, htouch⟩ := hok
    obtain ⟨hfound', hrep⟩ := hfound.script hdead hack htouch
    exact ⟨⟨hreset, hfound'⟩, hrep⟩
  | reset body written =>
    obtain ⟨hreset, hfound, hbody⟩ := h
    obtain ⟨hdead, hack, hspares, htouch⟩ := hok
    obtain ⟨hfound', hrep⟩ := hfound.script hdead hack htouch
    exact ⟨⟨hreset, hfound', hspares.trans hbody⟩, hrep⟩
  | commit written =>
    obtain ⟨hdead, hack, hspares, htouch⟩ := hok
    rcases h with ⟨hfound, hno⟩ | ⟨rfl, hreset, r₁, written₁, body, hfound, hbody, rfl⟩
    · obtain ⟨hfound', hrep⟩ := hfound.script hdead hack htouch
      refine ⟨.inl ⟨hfound', fun hreset => ?_⟩, hrep⟩
      cases written with
      | false => exact (hspares hreset rfl).trans (hno hreset)
      | true => exact (resetBody_untouched (htouch rfl)).trans (hno hreset)
    · -- the call has written the body: the script has nothing to do with it
      have htouch₁ : ¬ c.Touches id r₁ := htouch rfl
      have hack₁ : ¬ c.Acks id r₁ := hack
      have hset := Script.run_setBody body htouch₁
      have hdead₁ : SparesDead id r₁ c := by
        unfold SparesDead at hdead ⊢
        rw [hset] at hdead
        exact hdead
      obtain ⟨hfound', hrep⟩ := hfound.script hdead₁ hack₁ (fun _ => htouch₁)
      rw [hset]
      refine ⟨.inr ⟨rfl, hreset, _, written₁, body, hfound', ?_, rfl⟩, hrep⟩
      exact (resetBody_untouched htouch₁).trans hbody
  | done ok => exact h.elim

/-- **Atomicity.** In every state and every interleaving of one `requeue` call with
worker scripts, where each script that falls into a gap may run there, the final state,
the scripts' replies and the result are those of an execution in which the call runs as
one step between the scripts. -/
theorem requeue_atomic_when_gaps_spared {id : String} {resetAttempts ok : Bool}
    {r : Redis Body} {acts : List (GapAct Script)}
    {g : Gapped (Redis Body) (RequeuePc Body) (ScriptReply Body)}
    (hrun : Run (Gapped.step (requeueOp id resetAttempts) scriptCmd) (GapOk id resetAttempts)
      ⟨r, .range, []⟩ acts g) (hdone : g.pc = .done ok) :
    Linearizes scriptCmd (requeue id resetAttempts) r (commands acts) g.store g.replies ok := by
  have hstart : ∀ r : Redis Body,
      Delayed id resetAttempts r r (requeueOp id resetAttempts).start := fun _ => rfl
  have hresult : (requeueOp id resetAttempts).result g.pc = some ok := by
    rw [hdone]
    rfl
  refine delayed_linearizes hstart rfl ?_ ?_ ?_ hrun hresult
  · exact fun r₀ r pc h _ hopen => h.own hopen
  · exact fun r₀ r pc ok h _ hend => h.end hend
  · exact fun r₀ g c h _ hok => h.script hok

/-- The job is leased under `L1`. -/
def leasedJob : Redis JsonBody :=
  (Engine.init.execAll [⟨0, .routeBody sampleArgs⟩, ⟨0, .routePush sampleArgs 0⟩,
    ⟨1, .claimBatch ["L1"] 31⟩]).redis

/-- A heartbeat and a failed attempt fall into the gaps. -/
def harmlessGaps : List (GapAct Script) :=
  [.own, .other (.heartbeat 10 30 "job" "L1"), .own,
    .other (.requeueOrDead 11 1 60 "job" "L1"), .own]

/-- The failed attempt counts as one before the requeue. -/
theorem requeue_atomic_when_gaps_spared_harmless :
    ∃ g : Gapped (Redis JsonBody) (RequeuePc JsonBody) (ScriptReply JsonBody),
      Run (Gapped.step (requeueOp "job" false) scriptCmd) (GapOk "job" false)
        ⟨leasedJob, .range, []⟩ harmlessGaps g ∧ g.pc = .done true ∧
      Linearizes scriptCmd (requeue "job" false) leasedJob (commands harmlessGaps) g.store
        g.replies true := by
  have hrun : ∃ g : Gapped (Redis JsonBody) (RequeuePc JsonBody) (ScriptReply JsonBody),
      Run (Gapped.step (requeueOp "job" false) scriptCmd) (GapOk "job" false)
        ⟨leasedJob, .range, []⟩ harmlessGaps g ∧ g.pc = .done true := by
    refine ⟨_, .cons trivial rfl (.cons ?_ rfl (.cons trivial rfl (.cons ?_ rfl
      (.cons trivial rfl .nil)))), rfl⟩
    · show matching "job" _ = matching "job" _
      decide +kernel
    · refine ⟨?_, nofun, nofun, nofun⟩
      show matching "job" _ = matching "job" _
      decide +kernel
  obtain ⟨g, hrun, hdone⟩ := hrun
  exact ⟨g, hrun, hdone, requeue_atomic_when_gaps_spared hrun hdone⟩

/-! ## An acknowledgement in the gap -/

/-- The worker acknowledges the task between the look at its body and the transaction. -/
def ackedInGap : List (GapAct Script) :=
  [.own, .own, .other (.ackBatch [("job", "L1")]), .own]

/-- **Not atomic.** The acknowledged task is back on the ready list, without a body, and
no order of the acknowledgement and an atomic requeue explains both answers. -/
theorem requeue_revives_acked_task :
    ∃ g : Gapped (Redis JsonBody) (RequeuePc JsonBody) (ScriptReply JsonBody),
      Run (Gapped.step (requeueOp "job" false) scriptCmd) (fun _ _ => True)
        ⟨leasedJob, .range, []⟩ ackedInGap g ∧ g.pc = .done true ∧
      g.store.immediate = ["job"] ∧ g.store.task "job" = none ∧
      ¬ Linearizes scriptCmd (requeue "job" false) leasedJob (commands ackedInGap) g.store
        g.replies true := by
  refine ⟨_, .cons trivial rfl (.cons trivial rfl (.cons trivial rfl (.cons trivial rfl
    .nil))), rfl, rfl, rfl, ?_⟩
  rintro ⟨pre, post, heq, hsplit⟩
  cases pre with
  | nil =>
    -- the requeue first: the acknowledgement would be fenced
    obtain rfl : [Script.ackBatch [("job", "L1")]] = post := heq
    have hrep := hsplit.replies
    injection hrep with hids
    injection hids with hids
    revert hids
    decide +kernel
  | cons c pre =>
    -- the acknowledgement first: the requeue would find nothing
    have heq' : [Script.ackBatch [("job", "L1")]] = c :: (pre ++ post) := heq
    injection heq' with hc hnil
    obtain ⟨rfl, rfl⟩ := List.append_eq_nil_iff.mp hnil.symm
    subst hc
    have hres := hsplit.result
    revert hres
    decide +kernel

end ForgeQueue
