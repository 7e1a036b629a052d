import ForgeQueue.Base.Run

/-!
# Operations with gaps

An operation that is not atomic takes its steps one at a time, and other clients run
commands in between. `Gapped.step` is that interleaving: the operation keeps a program
counter, a command answers at once.

The rule `delayed_linearizes` is how such an operation is shown to be atomic after all.
`D s₀ s p` says that the operation, started in `s₀` and run without interruption, has
come to `s` and `p`. If every command that is let into a gap can be run before the whole
operation instead, leaving `D` and its answer as they are, then the interleaving is one
in which all the commands of the gaps come first and the operation runs at once.
-/

namespace Base

variable {σ π α ρ β : Type*}

/-- An operation: where it starts, its next step, and its result once it is finished. -/
structure Operation (σ π β : Type*) where
  start : π
  step : σ → π → σ × π
  result : π → Option β

/-- The store, the operation's program counter, and the answers to the commands so far. -/
structure Gapped (σ π ρ : Type*) where
  store : σ
  pc : π
  replies : List ρ

/-- The next step of the operation, or a command of somebody else. -/
inductive GapAct (α : Type*) where
  | own
  | other (a : α)

/-- The interleaving. A finished operation takes no steps. -/
def Gapped.step (op : Operation σ π β) (cmd : α → σ → σ × ρ) (g : Gapped σ π ρ) :
    GapAct α → Option (Gapped σ π ρ)
  | .own =>
    match op.result g.pc with
    | some _ => none
    | none =>
      some { g with store := (op.step g.store g.pc).1, pc := (op.step g.store g.pc).2 }
  | .other a =>
    some { g with store := (cmd a g.store).1, replies := g.replies ++ [(cmd a g.store).2] }

/-- The commands of an interleaving, in order. -/
def commands : List (GapAct α) → List α
  | [] => []
  | .own :: acts => commands acts
  | .other a :: acts => a :: commands acts

/-- Commands run one after the other, with their answers. -/
def playAll (cmd : α → σ → σ × ρ) : List α → σ → σ × List ρ
  | [], s => (s, [])
  | a :: as, s =>
    let next := playAll cmd as (cmd a s).1
    (next.1, (cmd a s).2 :: next.2)

/-- One more command at the end. -/
theorem playAll_snoc (cmd : α → σ → σ × ρ) (as : List α) (a : α) (s : σ) :
    playAll cmd (as ++ [a]) s =
      ((cmd a (playAll cmd as s).1).1,
        (playAll cmd as s).2 ++ [(cmd a (playAll cmd as s).1).2]) := by
  induction as generalizing s with
  | nil => rfl
  | cons b as ih =>
    show ((playAll cmd (as ++ [a]) _).1, _ :: (playAll cmd (as ++ [a]) _).2) = _
    rw [ih]
    rfl

/-- The outcome is that of the commands `pre`, then the whole operation at once, then the
commands `post`. -/
structure SplitsAt (cmd : α → σ → σ × ρ) (whole : σ → σ × β) (s : σ) (pre post : List α)
    (final : σ) (replies : List ρ) (b : β) : Prop where
  result : (whole (playAll cmd pre s).1).2 = b
  store : (playAll cmd post (whole (playAll cmd pre s).1).1).1 = final
  replies : (playAll cmd pre s).2 ++ (playAll cmd post (whole (playAll cmd pre s).1).1).2 = replies

/-- The outcome is that of some order in which the operation runs at once. -/
def Linearizes (cmd : α → σ → σ × ρ) (whole : σ → σ × β) (s : σ) (as : List α)
    (final : σ) (replies : List ρ) (b : β) : Prop :=
  ∃ pre post, as = pre ++ post ∧ SplitsAt cmd whole s pre post final replies b

/-- Another command after the operation has finished. -/
theorem Linearizes.snoc {cmd : α → σ → σ × ρ} {whole : σ → σ × β} {s final : σ} {as : List α}
    {replies : List ρ} {b : β} (h : Linearizes cmd whole s as final replies b) (a : α) :
    Linearizes cmd whole s (as ++ [a]) (cmd a final).1 (replies ++ [(cmd a final).2]) b := by
  obtain ⟨pre, post, rfl, hsplit⟩ := h
  refine ⟨pre, post ++ [a], by rw [List.append_assoc], hsplit.result, ?_, ?_⟩
  · rw [playAll_snoc, hsplit.store]
  · rw [playAll_snoc, hsplit.store, ← List.append_assoc, hsplit.replies]

section Rule

variable {op : Operation σ π β} {cmd : α → σ → σ × ρ} {whole : σ → σ × β}
  {ok : Gapped σ π ρ → GapAct α → Prop} {D : σ → σ → π → Prop}

/-- **Delay rule.** -/
theorem delayed_linearizes (hstart : ∀ s, D s s op.start) (hopen : op.result op.start = none)
    (hown : ∀ s₀ s p, D s₀ s p → op.result p = none → op.result (op.step s p).2 = none →
      D s₀ (op.step s p).1 (op.step s p).2)
    (hend : ∀ s₀ s p b, D s₀ s p → op.result p = none → op.result (op.step s p).2 = some b →
      whole s₀ = ((op.step s p).1, b))
    (hother : ∀ s₀ g a, D s₀ g.store g.pc → op.result g.pc = none → ok g (.other a) →
      D (cmd a s₀).1 (cmd a g.store).1 g.pc ∧ (cmd a s₀).2 = (cmd a g.store).2)
    {s : σ} {acts : List (GapAct α)} {g : Gapped σ π ρ}
    (hrun : Run (Gapped.step op cmd) ok ⟨s, op.start, []⟩ acts g) {b : β}
    (hdone : op.result g.pc = some b) :
    Linearizes cmd whole s (commands acts) g.store g.replies b := by
  -- along the run: unfinished with the commands delayed, or finished and linearized
  have key : ∀ (as : List α) {g g' : Gapped σ π ρ} {acts : List (GapAct α)},
      Run (Gapped.step op cmd) ok g acts g' →
      (op.result g.pc = none ∧ D (playAll cmd as s).1 g.store g.pc ∧
          (playAll cmd as s).2 = g.replies) ∨
        (∃ b, op.result g.pc = some b ∧ Linearizes cmd whole s as g.store g.replies b) →
      op.result g'.pc = some b →
      Linearizes cmd whole s (as ++ commands acts) g'.store g'.replies b := by
    intro as g g' acts hrun
    induction hrun generalizing as with
    | nil =>
      rintro (⟨hnone, -⟩ | ⟨b', hb', hlin⟩) hb
      · rw [hnone] at hb; cases hb
      · obtain rfl := Option.some.inj (hb'.symm.trans hb)
        rw [commands, List.append_nil]
        exact hlin
    | @cons g act g₁ acts g' hok hst _ ih =>
      intro hinv hb
      cases act with
      | own =>
        rcases hinv with ⟨hnone, hD, hrep⟩ | ⟨b', hb', -⟩
        swap
        · simp only [Gapped.step, hb'] at hst
          cases hst
        simp only [Gapped.step, hnone, Option.some.injEq] at hst
        subst hst
        refine ih as ?_ hb
        cases hres : op.result (op.step g.store g.pc).2 with
        | none => exact .inl ⟨rfl, hown _ _ _ hD hnone hres, hrep⟩
        | some b' =>
          have hwhole := hend _ _ _ _ hD hnone hres
          refine .inr ⟨b', rfl, as, [], by rw [List.append_nil], ?_, ?_, ?_⟩
          · rw [hwhole]
          · rw [hwhole]; rfl
          · rw [hrep]; exact List.append_nil _
      | other a =>
        simp only [Gapped.step, Option.some.injEq] at hst
        subst hst
        have hassoc : as ++ commands (.other a :: acts) = (as ++ [a]) ++ commands acts := by
          rw [commands, List.append_assoc]
          rfl
        rw [hassoc]
        refine ih (as ++ [a]) ?_ hb
        rcases hinv with ⟨hnone, hD, hrep⟩ | ⟨b', hb', hlin⟩
        · obtain ⟨hD', hrep'⟩ := hother _ g a hD hnone hok
          refine .inl ⟨hnone, ?_, ?_⟩
          · rw [playAll_snoc]; exact hD'
          · rw [playAll_snoc, hrep, hrep']
        · exact .inr ⟨b', hb', hlin.snoc a⟩
  have h := key [] hrun (.inl ⟨hopen, hstart s, rfl⟩) hdone
  rwa [List.nil_append] at h

end Rule

end Base
