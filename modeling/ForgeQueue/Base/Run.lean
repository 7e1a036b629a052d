import Mathlib.Logic.Relation
import Mathlib.Data.List.Basic

/-!
# Guarded runs of a partial step function

A system is a partial step function `step : σ → α → Option σ` on labels. The
environment it runs in is a guard `ok : σ → α → Prop`: which labels may be
issued in which state. `Run step ok s as s'` is a finite run under that guard.

Everything a whole-run statement needs is here once: runs compose and split,
an invariant of guarded steps is an invariant of runs, and a run is what the
executable `runList` computes.
-/

namespace Base

variable {σ α : Type*} {step : σ → α → Option σ} {ok : σ → α → Prop}

/-- `Run step ok s as s'`: from `s` the labels `as` fire in order, each one
allowed by `ok` in the state it fires in, and the run ends in `s'`. -/
inductive Run (step : σ → α → Option σ) (ok : σ → α → Prop) :
    σ → List α → σ → Prop
  | nil {s} : Run step ok s [] s
  | cons {s a s' as s''} : ok s a → step s a = some s' →
      Run step ok s' as s'' → Run step ok s (a :: as) s''

/-- Runs compose. -/
theorem Run.append {s s' s'' : σ} {as bs : List α} (h : Run step ok s as s')
    (h' : Run step ok s' bs s'') : Run step ok s (as ++ bs) s'' := by
  induction h with
  | nil => exact h'
  | cons hok hstep _ ih => exact .cons hok hstep (ih h')

/-- One more step at the end of a run. -/
theorem Run.snoc {s s' s'' : σ} {as : List α} {a : α} (h : Run step ok s as s')
    (hok : ok s' a) (hstep : step s' a = some s'') :
    Run step ok s (as ++ [a]) s'' :=
  h.append (.cons hok hstep .nil)

/-- A run over a concatenation passes through a middle state. -/
theorem Run.split {s s'' : σ} {as bs : List α} (h : Run step ok s (as ++ bs) s'') :
    ∃ s', Run step ok s as s' ∧ Run step ok s' bs s'' := by
  induction as generalizing s with
  | nil => exact ⟨s, .nil, h⟩
  | cons a as ih =>
    cases h with
    | cons hok hstep hrest =>
      obtain ⟨m, h1, h2⟩ := ih hrest
      exact ⟨m, .cons hok hstep h1, h2⟩

/-- **Invariant rule.** A predicate kept by every guarded step is kept by every
guarded run. -/
theorem Run.invariant (inv : σ → Prop)
    (hstep : ∀ s a s', ok s a → step s a = some s' → inv s → inv s')
    {s s' : σ} {as : List α} (h : Run step ok s as s') (hs : inv s) : inv s' := by
  induction h with
  | nil => exact hs
  | cons hok hst _ ih => exact ih (hstep _ _ _ hok hst hs)

/-- A guard may be replaced by one that holds wherever the run steps. -/
theorem Run.mono {ok' : σ → α → Prop}
    (hok : ∀ s a s', ok s a → step s a = some s' → ok' s a)
    {s s' : σ} {as : List α} (h : Run step ok s as s') : Run step ok' s as s' := by
  induction h with
  | nil => exact .nil
  | cons ha hst _ ih => exact .cons (hok _ _ _ ha hst) hst ih

/-- What every guarded step keeps may be added to the guard. -/
theorem Run.and_invariant (inv : σ → Prop)
    (hstep : ∀ s a s', ok s a → step s a = some s' → inv s → inv s')
    {s s' : σ} {as : List α} (h : Run step ok s as s') (hs : inv s) :
    Run step (fun s a => ok s a ∧ inv s) s as s' := by
  induction h with
  | nil => exact .nil
  | cons ha hst _ ih => exact .cons ⟨ha, hs⟩ hst (ih (hstep _ _ _ ha hst hs))

/-- The invariant rule for a predicate that also reads the labels fired so far. -/
theorem Run.trace_invariant (inv : List α → σ → Prop)
    (hstep : ∀ before s a s', ok s a → step s a = some s' → inv before s →
      inv (before ++ [a]) s')
    {s s' : σ} {as : List α} (h : Run step ok s as s') (hs : inv [] s) : inv as s' := by
  have hall : ∀ before, inv before s → inv (before ++ as) s' := by
    clear hs
    induction h with
    | nil =>
      intro before hb
      rwa [List.append_nil]
    | cons hok hst _ ih =>
      intro before hb
      rw [List.append_cons]
      exact ih _ (hstep _ _ _ _ hok hst hb)
  exact hall [] hs

/-- Every label of a run is one of its list. -/
theorem Run.and_mem {s s' : σ} {as : List α} (h : Run step ok s as s') :
    Run step (fun s a => ok s a ∧ a ∈ as) s as s' := by
  induction h with
  | nil => exact .nil
  | cons ha hst _ ih =>
    refine .cons ⟨ha, List.mem_cons_self⟩ hst (ih.mono ?_)
    exact fun _ _ _ h _ => ⟨h.1, List.mem_cons_of_mem _ h.2⟩

/-- **Origin rule.** What does not hold when a run starts and holds when it ends came about
in one of its steps. -/
theorem Run.origin (has : σ → Prop) {s s' : σ} {as : List α} (h : Run step ok s as s')
    (hs : ¬ has s) (hs' : has s') :
    ∃ before a after s₁ s₂, as = before ++ a :: after ∧ Run step ok s before s₁ ∧ ok s₁ a ∧
      step s₁ a = some s₂ ∧ ¬ has s₁ ∧ has s₂ := by
  induction h with
  | nil => exact absurd hs' hs
  | @cons s a s₁ as s' hok hst _ ih =>
    by_cases h₁ : has s₁
    · exact ⟨[], a, as, s, s₁, rfl, .nil, hok, hst, hs, h₁⟩
    · obtain ⟨before, b, after, s₂, s₃, rfl, hrun, hrest⟩ := ih h₁ hs'
      exact ⟨a :: before, b, after, s₂, s₃, rfl, .cons hok hst hrun, hrest⟩

/-- Executable form: fire a list of labels, stopping at the first that is not
enabled. -/
def runList (step : σ → α → Option σ) : σ → List α → Option σ
  | s, [] => some s
  | s, a :: as => (step s a).bind fun s' => runList step s' as

/-- What `runList` computes is a run, if every label may be issued in every state. -/
theorem Run.of_runList {s s' : σ} {as : List α} (hok : ∀ a ∈ as, ∀ s, ok s a)
    (h : runList step s as = some s') : Run step ok s as s' := by
  induction as generalizing s with
  | nil =>
    simp only [runList, Option.some.injEq] at h
    exact h ▸ .nil
  | cons a as ih =>
    simp only [runList, Option.bind_eq_some_iff] at h
    obtain ⟨m, hm, hrest⟩ := h
    refine .cons (hok a List.mem_cons_self s) hm (ih ?_ hrest)
    exact fun x hx => hok x (List.mem_cons_of_mem _ hx)

/-- And a run says where the labels lead. -/
theorem Run.runList_eq {s s' : σ} {as : List α} (h : Run step ok s as s') :
    runList step s as = some s' := by
  induction h with
  | nil => rfl
  | cons _ hst _ ih =>
    rw [runList, hst]
    exact ih

/-- The same for a computed run that ends in a state with a decidable property. -/
theorem Run.exists_of_any {s : σ} {as : List α} {p : σ → Bool} (hok : ∀ a ∈ as, ∀ s, ok s a)
    (h : (runList step s as).any p = true) : ∃ s', Run step ok s as s' ∧ p s' = true := by
  obtain ⟨s', hs', hp⟩ := (Option.any_eq_true _ _).mp h
  exact ⟨s', .of_runList hok hs', hp⟩

/-- A guard that can be decided is checked on the way. -/
theorem Run.exists_of_checked [∀ s a, Decidable (ok s a)] {s : σ} {as : List α}
    {p : σ → Bool}
    (h : (runList (fun s a => if ok s a then step s a else none) s as).any p = true) :
    ∃ s', Run step ok s as s' ∧ p s' = true := by
  have hall : ∀ (s : σ) (as : List α) (s' : σ),
      runList (fun s a => if ok s a then step s a else none) s as = some s' →
      Run step ok s as s' := by
    intro s as
    induction as generalizing s with
    | nil =>
      intro s' hs'
      obtain rfl := Option.some.inj hs'
      exact .nil
    | cons a as ih =>
      intro s' hs'
      obtain ⟨m, hm, hrest⟩ := Option.bind_eq_some_iff.mp hs'
      dsimp only at hm
      split at hm
      · exact .cons ‹_› hm (ih m s' hrest)
      · cases hm
  obtain ⟨s', hs', hp⟩ := (Option.any_eq_true _ _).mp h
  exact ⟨s', hall s as s' hs', hp⟩

/-- **Lockstep.** Two systems that answer each label alike, from related states with related
ones, answer each list of labels alike. -/
theorem runList_rel {τ : Type*} {step' : τ → α → Option τ} {R : σ → τ → Prop}
    (hstep : ∀ s t a, R s t → Option.Rel R (step s a) (step' t a)) (as : List α) {s : σ} {t : τ}
    (h : R s t) : Option.Rel R (runList step s as) (runList step' t as) := by
  induction as generalizing s t with
  | nil => exact .some h
  | cons a as ih =>
    have hr := hstep s t a h
    unfold runList
    revert hr
    generalize step s a = x
    generalize step' t a = y
    intro hr
    cases hr with
    | none => exact .none
    | some h' => exact ih h'

end Base
