import ForgeQueue.Base.Run

/-!
# One use for each supply

An entry is supplied, used and voided (thrown away unused) over and over. "Used at most
once" is a property of the history of these moves: every use stems from a supply of its
own, with no other use and no voiding since.

`eachUseStems_iff` is the rule for systems. If some predicate of the state, the stock,
follows the moves (a supply fills it, a use and a voiding empty it, nothing else changes
it), then the histories in which every use stems from a supply are exactly those of the
runs in which every use finds the stock filled.
-/

namespace Base

/-- What a step does to the entry. -/
inductive Move where
  | supplied
  | used
  | voided
  deriving DecidableEq

/-- There is a supply with no use and no voiding since. -/
def Armed (h : List Move) : Prop :=
  ∃ before since, h = before ++ .supplied :: since ∧ .used ∉ since ∧ .voided ∉ since

/-- Every use of the history stems from a supply of its own. -/
def EachUseStems (h : List Move) : Prop :=
  ∀ before after, h = before ++ .used :: after → Armed before

theorem not_armed_nil : ¬ Armed [] := by
  rintro ⟨before, since, h, -⟩
  exact List.append_ne_nil_of_right_ne_nil before (List.cons_ne_nil _ _) h.symm

/-- The last move decides, or leaves it to the moves before. -/
theorem armed_snoc {h : List Move} {m : Move} :
    Armed (h ++ [m]) ↔ m = .supplied ∨ (m ≠ .used ∧ m ≠ .voided ∧ Armed h) := by
  constructor
  · rintro ⟨before, since, heq, hused, hvoid⟩
    rcases List.eq_nil_or_concat' since with rfl | ⟨since, m', rfl⟩
    · left
      have hlast := List.append_inj_right' heq rfl
      exact (List.cons.inj hlast).1
    · right
      rw [← List.cons_append, ← List.append_assoc] at heq
      obtain ⟨rfl, hm⟩ := List.append_inj' heq rfl
      obtain rfl := (List.cons.inj hm).1
      simp only [List.mem_append, List.mem_singleton, not_or] at hused hvoid
      exact ⟨Ne.symm hused.2, Ne.symm hvoid.2, before, since, rfl, hused.1, hvoid.1⟩
  · rintro (rfl | ⟨hu, hv, before, since, rfl, hused, hvoid⟩)
    · exact ⟨h, [], rfl, List.not_mem_nil, List.not_mem_nil⟩
    · refine ⟨before, since ++ [m], by simp, ?_, ?_⟩
      · simp [hused, Ne.symm hu]
      · simp [hvoid, Ne.symm hv]

theorem eachUseStems_nil : EachUseStems [] := by
  intro before after h
  exact absurd h.symm (List.append_ne_nil_of_right_ne_nil before (List.cons_ne_nil _ _))

/-- One more move is fine, unless it is a use without a supply. -/
theorem eachUseStems_snoc {h : List Move} {m : Move} :
    EachUseStems (h ++ [m]) ↔ EachUseStems h ∧ (m = .used → Armed h) := by
  constructor
  · intro hall
    refine ⟨?_, ?_⟩
    · rintro before after rfl
      exact hall before (after ++ [m]) (by simp)
    · rintro rfl
      exact hall h [] rfl
  · rintro ⟨hall, hlast⟩ before after heq
    rcases List.eq_nil_or_concat' after with rfl | ⟨after, m', rfl⟩
    · obtain ⟨rfl, hm⟩ := List.append_inj' heq rfl
      exact hlast (List.cons.inj hm).1
    · rw [← List.cons_append, ← List.append_assoc] at heq
      obtain ⟨rfl, -⟩ := List.append_inj' heq rfl
      exact hall before after rfl

/-- The history to start from, when the entry may already be there. -/
def opening (full : Bool) : List Move := if full then [.supplied] else []

theorem eachUseStems_opening (full : Bool) : EachUseStems (opening full) := by
  cases full with
  | false => exact eachUseStems_nil
  | true => exact eachUseStems_snoc.mpr ⟨eachUseStems_nil, fun h => Move.noConfusion h⟩

theorem armed_opening (full : Bool) : Armed (opening full) ↔ full = true := by
  cases full with
  | false => exact ⟨fun h => absurd h not_armed_nil, fun h => Bool.noConfusion h⟩
  | true => exact ⟨fun _ => rfl, fun _ => ⟨[], [], rfl, List.not_mem_nil, List.not_mem_nil⟩⟩

/-! ## Histories of runs -/

section

variable {σ α : Type*} {step : σ → α → Option σ} {ok : σ → α → Prop}

/-- The moves along a list of labels. -/
def history (step : σ → α → Option σ) (move : σ → α → Option Move) : σ → List α → List Move
  | _, [] => []
  | s, a :: as => (move s a).toList ++ (step s a).elim [] fun s' => history step move s' as

theorem history_cons {move : σ → α → Option Move} {s s₁ : σ} {a : α} (as : List α)
    (hst : step s a = some s₁) :
    history step move s (a :: as) = (move s a).toList ++ history step move s₁ as := by
  simp [history, hst]

/-- The history of a run that goes on. -/
theorem history_append {move : σ → α → Option Move} {s s' : σ} {as : List α}
    (hrun : Run step ok s as s') (bs : List α) :
    history step move s (as ++ bs) = history step move s as ++ history step move s' bs := by
  induction hrun with
  | nil => rfl
  | cons _ hst _ ih =>
    rw [List.cons_append, history_cons _ hst, history_cons _ hst, ih, List.append_assoc]

/-- The stock after a move. -/
def stockAfter (before : Prop) : Option Move → Prop
  | some .supplied => True
  | some .used | some .voided => False
  | none => before

/-- A history that ends in `m`, if there is one, is armed exactly when the stock says so. -/
theorem armed_append_toList {h : List Move} {before : Prop} (hb : Armed h ↔ before)
    (m : Option Move) : Armed (h ++ m.toList) ↔ stockAfter before m := by
  cases m with
  | none => rw [Option.toList_none, List.append_nil]; exact hb
  | some m =>
    rw [Option.toList_some, armed_snoc]
    cases m <;> simp [stockAfter]

/-- **Ledger rule, one way.** A stock that is filled only after a supply with no use and
no voiding since, and that every use finds filled. -/
theorem eachUseStems_of_stock {move : σ → α → Option Move} {stock : σ → Prop}
    (htracks : ∀ s a s', ok s a → step s a = some s' → stock s' →
      stockAfter (stock s) (move s a))
    (huse : ∀ s a, ok s a → move s a = some .used → stock s)
    {s s' : σ} {as : List α} (hrun : Run step ok s as s') :
    ∀ {h : List Move}, EachUseStems h → (stock s → Armed h) →
      EachUseStems (h ++ history step move s as) := by
  induction hrun with
  | nil =>
    intro h hall _
    simp only [history, List.append_nil]
    exact hall
  | @cons s a s₁ as s' hok hst _ ih =>
    intro h hall harmed
    rw [history_cons _ hst, ← List.append_assoc]
    refine ih ?_ ?_
    · cases hm : move s a with
      | none => simpa using hall
      | some m =>
        rw [Option.toList_some, eachUseStems_snoc]
        refine ⟨hall, ?_⟩
        rintro rfl
        exact harmed (huse s a hok hm)
    · intro hstock
      have hafter := htracks s a s₁ hok hst hstock
      cases hm : move s a with
      | none =>
        rw [hm] at hafter
        simpa using harmed hafter
      | some m =>
        rw [hm] at hafter
        rw [Option.toList_some, armed_snoc]
        cases m with
        | supplied => exact .inl rfl
        | used => exact hafter.elim
        | voided => exact hafter.elim

/-- **Ledger rule.** -/
theorem eachUseStems_iff {move : σ → α → Option Move} {stock : σ → Prop}
    (htracks : ∀ s a s', ok s a → step s a = some s' →
      (stock s' ↔ stockAfter (stock s) (move s a)))
    {s s' : σ} {as : List α} (hrun : Run step ok s as s') :
    ∀ {h : List Move}, EachUseStems h → (Armed h ↔ stock s) →
      (EachUseStems (h ++ history step move s as) ↔
        Run step (fun s a => ok s a ∧ (move s a = some .used → stock s)) s as s') := by
  induction hrun with
  | nil =>
    intro h hall _
    simp only [history, List.append_nil]
    exact ⟨fun _ => .nil, fun _ => hall⟩
  | @cons s a s₁ as s' hok hst hrest ih =>
    intro h hall harmed
    have harmed₁ : Armed (h ++ (move s a).toList) ↔ stock s₁ :=
      (armed_append_toList harmed _).trans (htracks s a s₁ hok hst).symm
    -- the moves of the first step alone
    have hfirst : EachUseStems (h ++ (move s a).toList) ↔ (move s a = some .used → stock s) := by
      cases hm : move s a with
      | none => simp [hall]
      | some m =>
        rw [Option.toList_some, eachUseStems_snoc, harmed]
        simp [hall]
    rw [history_cons _ hst, ← List.append_assoc]
    constructor
    · intro hlong
      have hhead : EachUseStems (h ++ (move s a).toList) := by
        intro before after heq
        exact hlong before (after ++ history step move s₁ as) (by rw [heq]; simp)
      exact .cons ⟨hok, hfirst.mp hhead⟩ hst ((ih hhead harmed₁).mp hlong)
    · intro hguarded
      cases hguarded with
      | cons hok' hst' hrest' =>
        obtain rfl := Option.some.inj (hst.symm.trans hst')
        exact (ih (hfirst.mpr hok'.2) harmed₁).mpr hrest'

end

end Base
