import ForgeQueue.Base.Paging
import ForgeQueue.Logic.Moves

/-!
# Journal statements and the reconciler's pages

What the statements keep: the key of every row, and with it the id and the place in
the walk; only the gateway's insert adds a row. And what a page covers: a non-terminal
row after the cursor is in the page, or the page is full and ends before it.
-/

namespace ForgeQueue

open Base

variable {Body : Type}

/-! ## Statements -/

/-- An `UPDATE` writes neither `id` nor `created_at` nor `payload`, and a due time is
overwritten but never cleared. -/
structure Keeps (f : Row Body → Row Body) : Prop where
  id : ∀ row, (f row).id = row.id
  createdAt : ∀ row, (f row).createdAt = row.createdAt
  payload : ∀ row, (f row).payload = row.payload
  due : ∀ row, row.scheduleAt.isSome → (f row).scheduleAt.isSome

theorem keeps_setState (state : TaskState) (attempts : Int) (due : Option ℚ) :
    Keeps fun row : Row Body => row.setState state attempts due where
  id _ := rfl
  createdAt _ := rfl
  payload _ := rfl
  due row h := by
    show (due <|> row.scheduleAt).isSome = true
    cases due with
    | none => exact h
    | some t => rfl

theorem keeps_materialized : Keeps fun row : Row Body => { row with redisPending := false } :=
  ⟨fun _ => rfl, fun _ => rfl, fun _ => rfl, fun _ h => h⟩

theorem Keeps.key {f : Row Body → Row Body} (h : Keeps f) (row : Row Body) :
    (f row).key = row.key := by
  unfold Row.key
  rw [h.id, h.createdAt]

/-- A row after an update is an old row, or `f` of the old row of that id. -/
theorem mem_journalUpdate {id : String} {f : Row Body → Row Body} {rows : List (Row Body)}
    {row : Row Body} (h : row ∈ journalUpdate id f rows) :
    row ∈ rows ∨ ∃ old ∈ rows, old.id = id ∧ row = f old := by
  obtain ⟨old, hold, rfl⟩ := List.mem_map.mp h
  by_cases hid : old.id = id
  · rw [if_pos hid]; exact .inr ⟨old, hold, hid, rfl⟩
  · rw [if_neg hid]; exact .inl hold

/-- An update keeps every key. -/
theorem journalUpdate_keys {f : Row Body → Row Body} (hf : Keeps f) (id : String)
    (rows : List (Row Body)) : (journalUpdate id f rows).map Row.key = rows.map Row.key := by
  unfold journalUpdate
  rw [List.map_map]
  apply List.map_congr_left
  intro row _
  show (if row.id = id then f row else row).key = row.key
  split
  · exact hf.key row
  · rfl

/-- The id of a key. -/
def Key.id (κ : Key) : String := (ofLex κ).2

theorem map_id_eq (rows : List (Row Body)) : rows.map Row.id = (rows.map Row.key).map Key.id := by
  rw [List.map_map]
  rfl

/-- The insert of a new id appends a row. -/
theorem journalEnqueue_fresh (now : ℚ) (t : Row Body) (rows : List (Row Body))
    (h : t.id ∉ rows.map Row.id) :
    journalEnqueue now t rows = rows ++ [{ t with redisPending := true, createdAt := now }] := by
  induction rows with
  | nil => rfl
  | cons row rows ih =>
    rw [List.map_cons, List.mem_cons, not_or] at h
    rw [journalEnqueue, if_neg (Ne.symm h.1), ih h.2]
    rfl

/-- A row after the insert is an old row, or what the gateway wrote. -/
theorem mem_journalEnqueue {now : ℚ} {t row : Row Body} {rows : List (Row Body)}
    (h : row ∈ journalEnqueue now t rows) :
    row ∈ rows ∨ row.id = t.id ∧ row.scheduleAt = t.scheduleAt ∧ row.payload = t.payload := by
  induction rows with
  | nil =>
    obtain rfl := List.mem_singleton.mp h
    exact .inr ⟨rfl, rfl, rfl⟩
  | cons old rows ih =>
    unfold journalEnqueue at h
    split at h
    · rcases List.mem_cons.mp h with rfl | h
      · exact .inr ⟨rfl, rfl, rfl⟩
      · exact .inl (List.mem_cons_of_mem _ h)
    · rcases List.mem_cons.mp h with rfl | h
      · exact .inl List.mem_cons_self
      · exact (ih h).imp_left (List.mem_cons_of_mem _)

/-- The insert adds the id and loses none. -/
theorem mem_journalEnqueue_ids (now : ℚ) (t : Row Body) (rows : List (Row Body)) {x : String}
    (h : x = t.id ∨ x ∈ rows.map Row.id) : x ∈ (journalEnqueue now t rows).map Row.id := by
  induction rows with
  | nil => simpa [journalEnqueue] using h
  | cons row rows ih =>
    unfold journalEnqueue
    split
    · next hid =>
      rw [List.map_cons, List.mem_cons] at h ⊢
      rcases h with rfl | rfl | h
      · exact .inl rfl
      · exact .inl hid
      · exact .inr h
    · rw [List.map_cons, List.mem_cons] at h ⊢
      rcases h with rfl | rfl | h
      · exact .inr (ih (.inl rfl))
      · exact .inl rfl
      · exact .inr (ih (.inr h))

/-! ## Pages -/

/-- The last key of a page, or the cursor of an empty one. -/
def lastKey : Key → List (Row Body) → Key
  | next, [] => next
  | _, row :: rest => lastKey row.key rest

/-- The last key of a nonempty page is the key of one of its rows. -/
theorem lastKey_mem {rows : List (Row Body)} (next : Key) (h : rows ≠ []) :
    ∃ row ∈ rows, lastKey next rows = row.key := by
  induction rows generalizing next with
  | nil => exact absurd rfl h
  | cons row rest ih =>
    by_cases hr : rest = []
    · subst hr
      exact ⟨row, List.mem_cons_self, rfl⟩
    · obtain ⟨r, hmem, heq⟩ := ih row.key hr
      exact ⟨r, List.mem_cons_of_mem _ hmem, heq⟩

/-- The rows of a page are non-terminal rows after the cursor. -/
theorem mem_active {after : Key} {limit : ℕ} {rows : List (Row Body)} {row : Row Body}
    (h : row ∈ active after limit rows) :
    row ∈ rows ∧ row.state.terminal = false ∧ after < row.key := by
  have hsort := List.mem_of_mem_take h
  rw [List.mem_insertionSort, List.mem_filter] at hsort
  simpa using hsort

/-- The non-terminal rows. -/
def openRows (rows : List (Row Body)) : List (Row Body) :=
  rows.filter fun row => !row.state.terminal

/-- A page is a front segment of the non-terminal rows after the cursor. -/
theorem active_eq_after (cursor : Key) (limit : ℕ) (rows : List (Row Body)) :
    active cursor limit rows = (after Row.key cursor (openRows rows)).take limit := by
  unfold active after openRows
  rw [List.filter_filter]
  congr 2
  refine List.filter_congr fun row _ => ?_
  rw [Bool.and_comm]

/-- Rows with distinct ids have distinct keys. -/
theorem openRows_keys_nodup {rows : List (Row Body)} (hnd : (rows.map Row.id).Nodup) :
    ((openRows rows).map Row.key).Nodup := by
  have hkeys : (rows.map Row.key).Nodup := by
    rw [map_id_eq] at hnd
    exact hnd.of_map _
  exact hkeys.sublist (List.filter_sublist.map _)

/-- A page is strictly increasing. -/
theorem active_pairwise {rows : List (Row Body)} (hnd : (rows.map Row.id).Nodup) (cursor : Key)
    (limit : ℕ) : (active cursor limit rows).Pairwise fun r s => r.key < s.key := by
  rw [active_eq_after]
  exact (after_pairwise (openRows_keys_nodup hnd)).sublist (List.take_sublist _ _)

/-- The last key of an increasing page is its greatest. -/
theorem lastKey_isLast {page : List (Row Body)} (cursor : Key)
    (hsorted : page.Pairwise fun r s => r.key < s.key) (hne : page ≠ []) :
    IsLast Row.key page (lastKey cursor page) := by
  obtain ⟨last, hlast, heq⟩ := lastKey_mem cursor hne
  refine ⟨⟨last, hlast, heq.symm⟩, ?_⟩
  clear hlast heq
  induction page generalizing cursor with
  | nil => exact absurd rfl hne
  | cons row rest ih =>
    intro x hx
    cases rest with
    | nil =>
      rw [List.mem_singleton.mp hx]
      exact le_refl _
    | cons next rest =>
      have hrest := ih row.key (List.pairwise_cons.mp hsorted).2 (List.cons_ne_nil _ _)
      rcases List.mem_cons.mp hx with rfl | hx
      · have hlt := (List.pairwise_cons.mp hsorted).1 next List.mem_cons_self
        exact hlt.le.trans (hrest next List.mem_cons_self)
      · exact hrest x hx

theorem active_isLast {rows : List (Row Body)} (hnd : (rows.map Row.id).Nodup) {cursor : Key}
    {limit : ℕ} (hne : active cursor limit rows ≠ []) :
    IsLast Row.key (active cursor limit rows) (lastKey cursor (active cursor limit rows)) :=
  lastKey_isLast cursor (active_pairwise hnd cursor limit) hne

/-- **Coverage.** A non-terminal row after the cursor is in the page, or the page is full
and ends before it. -/
theorem active_covers {after : Key} {limit : ℕ} {rows : List (Row Body)} {row : Row Body}
    (hnd : (rows.map Row.id).Nodup) (hrow : row ∈ rows) (hst : row.state.terminal = false)
    (hkey : after < row.key) (hlimit : 0 < limit) :
    row ∈ active after limit rows ∨
      ((active after limit rows).length = limit ∧
        lastKey after (active after limit rows) < row.key) := by
  have hopen : row ∈ openRows rows := List.mem_filter.mpr ⟨hrow, by simp [hst]⟩
  have hlast : active after limit rows ≠ [] →
      IsLast Row.key (active after limit rows) (lastKey after (active after limit rows)) :=
    active_isLast hnd
  rw [active_eq_after] at hlast ⊢
  exact after_covers (openRows_keys_nodup hnd) hlimit hlast hopen hkey

/-- The rows that wait in the reconciler's page. -/
def ReconcilerPc.page : ReconcilerPc Body → List (Row Body)
  | .idle _ => []
  | .sweeping _ rest _ => rest
  | .clearing _ rest _ => rest

/-- A row waits in a page because it waited before, or because the page was just read. -/
theorem page_step [BodyCodec Body] {w w' : World Body} {act : Act} (hst : w.step act = some w')
    {k : ℕ} {row : Row Body} (hin : row ∈ (w'.reconcilers k).page) :
    row ∈ (w.reconcilers k).page ∨
      ∃ cursor, act = .readPage k ∧ w.reconcilers k = .idle cursor ∧
        row ∈ active cursor reconcilePageSize w.journal := by
  -- the move of one reconciler matters to its own page only
  have moved : ∀ {j : ℕ} {pc : ReconcilerPc Body},
      w'.reconcilers = Function.update w.reconcilers j pc →
      row ∈ (w.reconcilers k).page ∨ (k = j ∧ row ∈ pc.page) := by
    intro j pc heq
    rw [heq] at hin
    by_cases hj : k = j
    · rw [hj, Function.update_self] at hin
      exact .inr ⟨hj, hin⟩
    · rw [Function.update_of_ne hj] at hin
      exact .inl hin
  cases World.moves hst with
  | readPage hk =>
    refine (moved rfl).imp_right ?_
    rintro ⟨rfl, hpage⟩
    exact ⟨_, rfl, hk, hpage⟩
  | materializeRow hk =>
    rcases moved rfl with h | ⟨rfl, hrest⟩
    · exact .inl h
    · rw [hk]
      exact .inl (List.mem_cons_of_mem _ hrest)
  | clearRow hk =>
    rcases moved rfl with h | ⟨rfl, hrest⟩
    · exact .inl h
    · rw [hk]
      exact .inl hrest
  | finishPage _ =>
    rcases moved rfl with h | ⟨-, hnil⟩
    · exact .inl h
    · cases hnil
  | reconcilerCrash =>
    rcases moved rfl with h | ⟨-, hnil⟩
    · exact .inl h
    · cases hnil
  | _ => exact .inl hin

end ForgeQueue
