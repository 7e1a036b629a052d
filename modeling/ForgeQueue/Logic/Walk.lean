import ForgeQueue.Logic.Durable
import ForgeQueue.Logic.Pages
import ForgeQueue.Model.Sweep

/-!
# Walks over the journal

A reconciler reads the non-terminal rows page by page, from the zero cursor to the first
page that is not full. Others write to the journal between two of its reads, so a walk is a
function of the journals it finds, one for each read (`walk`). What it returns is strictly
increasing (`walk_sorted`), consists of rows that were non-terminal when they were read
(`walk_open`), and leaves nothing out that stays non-terminal (`walk_covers`).
-/

namespace ForgeQueue

open Base

variable {Body : Type}

/-! ## What a sweep does not change -/

/-- The key and the state of a row. A sweep changes neither. -/
def Row.view (row : Row Body) : Key × TaskState := (row.key, row.state)

theorem journalMaterialized_view (id : String) (rows : List (Row Body)) :
    (journalMaterialized id rows).map Row.view = rows.map Row.view := by
  unfold journalMaterialized journalUpdate
  rw [List.map_map]
  apply List.map_congr_left
  intro row _
  show (if row.id = id then { row with redisPending := false } else row).view = row.view
  split <;> rfl

/-- The keys of the non-terminal rows. -/
def openKeys (rows : List (Row Body)) : List Key :=
  ((rows.map Row.view).filter fun v => !v.2.terminal).map Prod.fst

theorem mem_openKeys {rows : List (Row Body)} {κ : Key} :
    κ ∈ openKeys rows ↔ ∃ row ∈ rows, row.key = κ ∧ row.state.terminal = false := by
  unfold openKeys
  simp only [List.mem_map, List.mem_filter, Row.view]
  constructor
  · rintro ⟨v, ⟨⟨row, hrow, rfl⟩, hst⟩, rfl⟩
    exact ⟨row, hrow, rfl, by simpa using hst⟩
  · rintro ⟨row, hrow, rfl, hst⟩
    exact ⟨row.view, ⟨⟨row, hrow, rfl⟩, by simpa [Row.view] using hst⟩, rfl⟩

theorem openKeys_length_le (rows : List (Row Body)) : (openKeys rows).length ≤ rows.length := by
  unfold openKeys
  rw [List.length_map]
  refine (List.length_filter_le _ _).trans ?_
  rw [List.length_map]

/-! ## One row -/

/-- A row whose task is live is left alone. -/
theorem materialize_of_live {r : Redis Body} {t : Row Body} (h : r.Live t.id) (clock : ℚ) :
    materialize clock t r = (r, false) := by
  rw [materialize, materializeScript, if_pos h]

/-- What is written for an absent task. -/
theorem materialize_absent {clock : ℚ} {t : Row Body} {r : Redis Body} (h : ¬ r.Live t.id) :
    materialize clock t r =
      (routePush (materializeScore clock t) t.id { r with task := put r.task t.id t.payload },
        true) := by
  rw [materialize, materializeScript, if_neg h]
  cases materializeScore clock t with
  | none => rfl
  | some score => rfl

/-- After its row the task is live, and nothing else has changed about liveness. -/
theorem materialize_live (clock : ℚ) (t : Row Body) (r : Redis Body) (x : String) :
    (materialize clock t r).1.Live x ↔ x = t.id ∨ r.Live x := by
  by_cases h : r.Live t.id
  · rw [materialize_of_live h]
    constructor
    · exact .inr
    · rintro (rfl | hx)
      · exact h
      · exact hx
  · rw [materialize_absent h, routePush_live]
    rfl

/-! ## Rows one by one -/

/-- Materialize the rows in turn, counting those that had to be written. -/
def repairAll (clock : String → ℚ) : List (Row Body) → Redis Body → Redis Body × ℕ
  | [], r => (r, 0)
  | t :: ts, r =>
    let m := materialize (clock t.id) t r
    let next := repairAll clock ts m.1
    (next.1, (if m.2 then 1 else 0) + next.2)

/-- Rows in two parts. -/
theorem repairAll_append (clock : String → ℚ) (ts us : List (Row Body)) :
    ∀ r : Redis Body, repairAll clock (ts ++ us) r =
      ((repairAll clock us (repairAll clock ts r).1).1,
        (repairAll clock ts r).2 + (repairAll clock us (repairAll clock ts r).1).2) := by
  induction ts with
  | nil => simp [repairAll]
  | cons t ts ih => simp [repairAll, ih, Nat.add_assoc]

/-- The loop over a page is that. -/
theorem foldl_repairAll (clock : String → ℚ) (page : List (Row Body)) :
    ∀ s : Sweep Body,
      (page.foldl (reconcileRow clock) s).redis = (repairAll clock page s.redis).1 ∧
        (page.foldl (reconcileRow clock) s).repaired =
          s.repaired + (repairAll clock page s.redis).2 := by
  induction page with
  | nil => exact fun _ => ⟨rfl, rfl⟩
  | cons t page ih =>
    intro s
    obtain ⟨hredis, hcount⟩ := ih (reconcileRow clock s t)
    rw [List.foldl_cons]
    refine ⟨hredis, hcount.trans ?_⟩
    show (if (materialize (clock t.id) t s.redis).2 then s.repaired + 1 else s.repaired) + _ =
      s.repaired + ((if (materialize (clock t.id) t s.redis).2 then 1 else 0) + _)
    split
    · exact Nat.add_assoc _ _ _
    · rw [Nat.zero_add]
      rfl

/-- Where every task is live there is nothing to repair. -/
theorem repairAll_live (clock : String → ℚ) (ts : List (Row Body)) (r : Redis Body)
    (h : ∀ t ∈ ts, r.Live t.id) : repairAll clock ts r = (r, 0) := by
  induction ts with
  | nil => rfl
  | cons t ts ih =>
    have hskip := materialize_of_live (h t List.mem_cons_self) (clock t.id)
    simp only [repairAll, hskip, ih fun u hu => h u (List.mem_cons_of_mem _ hu)]
    rfl

/-! ## One page -/

/-- What a page does: its tasks are live afterwards, the rows look the same, and the
cursor is at its end. -/
theorem foldl_reconcileRow (clock : String → ℚ) (page : List (Row Body)) (s : Sweep Body) :
    (∀ x, (page.foldl (reconcileRow clock) s).redis.Live x ↔
        x ∈ page.map Row.id ∨ s.redis.Live x) ∧
      (page.foldl (reconcileRow clock) s).journal.map Row.view = s.journal.map Row.view ∧
      (page.foldl (reconcileRow clock) s).next = lastKey s.next page ∧
      (page.foldl (reconcileRow clock) s).done = s.done := by
  induction page generalizing s with
  | nil => exact ⟨fun x => by simp, rfl, rfl, rfl⟩
  | cons t page ih =>
    obtain ⟨hlive, hview, hnext, hdone⟩ := ih (reconcileRow clock s t)
    rw [List.foldl_cons]
    refine ⟨fun x => ?_, ?_, hnext, hdone⟩
    · have hrow : (reconcileRow clock s t).redis.Live x ↔ x = t.id ∨ s.redis.Live x :=
        materialize_live _ _ _ _
      rw [hlive x, hrow, List.map_cons, List.mem_cons]
      tauto
    · rw [hview]
      exact journalMaterialized_view t.id s.journal

/-! ## How much is left -/

/-- The non-terminal rows after the cursor. -/
def remaining (rows : List (Row Body)) (cursor : Key) : ℕ :=
  ((openKeys rows).filter fun κ => cursor < κ).length

/-- A cursor that has moved to one of the rows has fewer rows before it. -/
theorem remaining_lt {rows : List (Row Body)} {cursor next : Key} (hmem : next ∈ openKeys rows)
    (hlt : cursor < next) : remaining rows next < remaining rows cursor := by
  unfold remaining
  have hfilter : ((openKeys rows).filter fun κ => decide (next < κ)) =
      (((openKeys rows).filter fun κ => decide (cursor < κ)).filter
        fun κ => decide (next < κ)) := by
    rw [List.filter_filter]
    apply List.filter_congr
    intro κ _
    by_cases h : next < κ
    · simp [h, hlt.trans h]
    · simp [h]
  rw [hfilter]
  apply List.length_filter_lt_length_iff_exists.mpr
  exact ⟨next, List.mem_filter.mpr ⟨hmem, by simpa using hlt⟩, by simp⟩

theorem openKeys_eq (rows : List (Row Body)) : openKeys rows = (openRows rows).map Row.key := by
  unfold openKeys openRows
  rw [List.filter_map, List.map_map]
  rfl

/-- All of them are left at the zero cursor. -/
theorem openKeys_after_zero {rows : List (Row Body)} (h : ∀ row ∈ rows, zeroCursor < row.key) :
    ((openKeys rows).filter fun κ => zeroCursor < κ).length = (openRows rows).length := by
  rw [List.filter_eq_self.mpr, openKeys_eq, List.length_map]
  intro κ hκ
  obtain ⟨row, hrow, rfl, -⟩ := mem_openKeys.mp hκ
  simpa using h row hrow

/-- What is left is what the next pages are cut from. -/
theorem remaining_eq (rows : List (Row Body)) (cursor : Key) :
    remaining rows cursor = (after Row.key cursor (openRows rows)).length := by
  rw [remaining, openKeys_eq, length_after]

theorem active_length (cursor : Key) (limit : ℕ) (rows : List (Row Body)) :
    (active cursor limit rows).length = min limit (remaining rows cursor) := by
  rw [active_eq_after, List.length_take, remaining_eq]

/-- A full page takes away as many rows as it has. -/
theorem remaining_lastKey {rows : List (Row Body)} (hnd : (rows.map Row.id).Nodup) {limit : ℕ}
    (hlimit : 0 < limit) {cursor : Key} (hfull : ¬ (active cursor limit rows).length < limit) :
    remaining rows (lastKey cursor (active cursor limit rows)) =
      remaining rows cursor - limit := by
  have hne : active cursor limit rows ≠ [] := List.ne_nil_of_length_pos (by omega)
  have hlast := active_isLast hnd hne
  rw [remaining_eq, remaining_eq]
  refine length_after_last (openRows_keys_nodup hnd) ?_
  rw [active_eq_after] at hlast ⊢
  exact hlast

/-! ## The walk -/

/-- The pages of a walk from the cursor on, where `Js` are the journals found at its reads.
A page that is not full is the last one; `none` if there are more reads to come than
`Js` has journals. -/
def walk (limit : ℕ) : Key → List (List (Row Body)) → Option (List (List (Row Body)))
  | _, [] => none
  | cursor, J :: Js =>
    let page := active cursor limit J
    if page.length < limit then some [page]
    else (walk limit (lastKey cursor page) Js).map (page :: ·)

/-- **Inversion.** The first read of a walk, and whether it is the last. -/
theorem walk_cases {limit : ℕ} {cursor : Key} {Js pages : List (List (Row Body))}
    (h : walk limit cursor Js = some pages) :
    ∃ J Js', Js = J :: Js' ∧
      ((active cursor limit J).length < limit ∧ pages = [active cursor limit J] ∨
        ¬ (active cursor limit J).length < limit ∧ ∃ more,
          walk limit (lastKey cursor (active cursor limit J)) Js' = some more ∧
          pages = active cursor limit J :: more) := by
  cases Js with
  | nil => cases h
  | cons J Js =>
    refine ⟨J, Js, rfl, ?_⟩
    rw [walk] at h
    split at h
    · exact .inl ⟨‹_›, (Option.some.inj h).symm⟩
    · obtain ⟨more, hmore, rfl⟩ := Option.map_eq_some_iff.mp h
      exact .inr ⟨‹_›, more, hmore, rfl⟩

/-- Every row was non-terminal in the journal it was read from. -/
theorem walk_open {limit : ℕ} {pages : List (List (Row Body))} :
    ∀ {cursor : Key} {Js : List (List (Row Body))}, walk limit cursor Js = some pages →
      ∀ (k : ℕ) (page : List (Row Body)), pages[k]? = some page → ∀ row ∈ page,
        ∃ J, Js[k]? = some J ∧ row ∈ J ∧ row.state.terminal = false := by
  induction pages with
  | nil =>
    intro cursor Js h k page hk
    cases hk
  | cons first pages ih =>
    intro cursor Js h k page hk row hrow
    obtain ⟨J, Js', rfl, ⟨-, heq⟩ | ⟨-, more, hmore, heq⟩⟩ := walk_cases h
    · rw [heq] at hk
      cases k with
      | zero =>
        obtain rfl := Option.some.inj hk
        exact ⟨J, rfl, (mem_active hrow).1, (mem_active hrow).2.1⟩
      | succ k => cases hk
    · obtain ⟨rfl, rfl⟩ := List.cons.inj heq
      cases k with
      | zero =>
        obtain rfl := Option.some.inj hk
        exact ⟨J, rfl, (mem_active hrow).1, (mem_active hrow).2.1⟩
      | succ k => exact ih hmore k page hk row hrow

/-- The rows come in strictly increasing order, all of them after the cursor. -/
theorem walk_sorted {limit : ℕ} (hlimit : 0 < limit) {pages : List (List (Row Body))} :
    ∀ {cursor : Key} {Js : List (List (Row Body))}, (∀ J ∈ Js, (J.map Row.id).Nodup) →
      walk limit cursor Js = some pages →
      (pages.flatten.Pairwise fun r s => r.key < s.key) ∧
        ∀ row ∈ pages.flatten, cursor < row.key := by
  induction pages with
  | nil =>
    intro cursor Js _ _
    exact ⟨List.Pairwise.nil, fun row hrow => nomatch hrow⟩
  | cons first pages ih =>
    intro cursor Js hids h
    obtain ⟨J, Js', rfl, hcase⟩ := walk_cases h
    have hnd := hids J List.mem_cons_self
    have hsorted := active_pairwise hnd cursor limit
    have hafter : ∀ row ∈ active cursor limit J, cursor < row.key :=
      fun row hrow => (mem_active hrow).2.2
    rcases hcase with ⟨-, heq⟩ | ⟨hfull, more, hmore, heq⟩
    · rw [heq, List.flatten_singleton]
      exact ⟨hsorted, hafter⟩
    · obtain ⟨rfl, rfl⟩ := List.cons.inj heq
      obtain ⟨hrest, hlast⟩ := ih (fun J' hJ' => hids J' (List.mem_cons_of_mem _ hJ')) hmore
      -- later pages start after the last key of this one
      have hne : active cursor limit J ≠ [] := List.ne_nil_of_length_pos (by omega)
      have hend := active_isLast hnd hne
      have hover : cursor < lastKey cursor (active cursor limit J) := by
        obtain ⟨row, hrow, hkey⟩ := hend.mem
        rw [← hkey]
        exact hafter row hrow
      rw [List.flatten_cons]
      refine ⟨List.pairwise_append.mpr ⟨hsorted, hrest, ?_⟩, ?_⟩
      · exact fun r hr s hs => (hend.le r hr).trans_lt (hlast s hs)
      · intro row hrow
        rcases List.mem_append.mp hrow with hrow | hrow
        · exact hafter row hrow
        · exact hover.trans (hlast row hrow)

/-- **Coverage.** A key after the cursor that every read finds non-terminal is returned. -/
theorem walk_covers {limit : ℕ} (hlimit : 0 < limit) {κ : Key}
    {pages : List (List (Row Body))} :
    ∀ {cursor : Key} {Js : List (List (Row Body))}, (∀ J ∈ Js, (J.map Row.id).Nodup) →
      walk limit cursor Js = some pages → cursor < κ →
      (∀ J ∈ Js.take pages.length, κ ∈ openKeys J) → ∃ row ∈ pages.flatten, row.key = κ := by
  induction pages with
  | nil =>
    intro cursor Js _ h
    obtain ⟨J, Js', rfl, ⟨-, heq⟩ | ⟨-, more, -, heq⟩⟩ := walk_cases h <;> cases heq
  | cons first pages ih =>
    intro cursor Js hids h hlt hopen
    obtain ⟨J, Js', rfl, hcase⟩ := walk_cases h
    obtain ⟨row, hrow, rfl, hst⟩ := mem_openKeys.mp (hopen J (by
      rw [List.length_cons, List.take_succ_cons]
      exact List.mem_cons_self))
    have hcover := active_covers (hids J List.mem_cons_self) hrow hst hlt hlimit
    rcases hcase with ⟨hshort, heq⟩ | ⟨hfull, more, hmore, heq⟩
    · have hin := hcover.resolve_right fun hend => absurd hend.1 (by omega)
      rw [heq, List.flatten_singleton]
      exact ⟨row, hin, rfl⟩
    · obtain ⟨rfl, rfl⟩ := List.cons.inj heq
      rw [List.flatten_cons]
      rcases hcover with hin | ⟨-, hend⟩
      · exact ⟨row, List.mem_append_left _ hin, rfl⟩
      · obtain ⟨found, hfound, hkey⟩ :=
          ih (fun J' hJ' => hids J' (List.mem_cons_of_mem _ hJ')) hmore hend fun J' hJ' =>
            hopen J' (by
              rw [List.length_cons, List.take_succ_cons]
              exact List.mem_cons_of_mem _ hJ')
        exact ⟨found, List.mem_append_right _ hfound, hkey⟩

/-- No id has different keys in two of the journals. -/
def Stable (Js : List (List (Row Body))) : Prop :=
  ∀ J ∈ Js, ∀ J' ∈ Js, ∀ row ∈ J, ∀ row' ∈ J', row.id = row'.id → row.key = row'.key

/-- A row that was returned was non-terminal in one of the journals. -/
theorem mem_walk {limit : ℕ} {cursor : Key} {Js pages : List (List (Row Body))}
    (h : walk limit cursor Js = some pages) {row : Row Body} (hrow : row ∈ pages.flatten) :
    ∃ J ∈ Js, row ∈ J ∧ row.state.terminal = false := by
  obtain ⟨page, hpage, hin⟩ := List.mem_flatten.mp hrow
  obtain ⟨k, hk⟩ := List.mem_iff_getElem?.mp hpage
  obtain ⟨J, hJ, hmem, hst⟩ := walk_open h k page hk row hin
  exact ⟨J, List.mem_of_getElem? hJ, hmem, hst⟩

/-- No task is returned twice. -/
theorem walk_ids_nodup {limit : ℕ} (hlimit : 0 < limit) {cursor : Key}
    {Js pages : List (List (Row Body))} (hids : ∀ J ∈ Js, (J.map Row.id).Nodup)
    (hstable : Stable Js) (h : walk limit cursor Js = some pages) :
    (pages.flatten.map Row.id).Nodup := by
  refine List.pairwise_map.mpr ((walk_sorted hlimit hids h).1.imp_of_mem ?_)
  intro r s hr hs hlt hid
  obtain ⟨J, hJ, hrow, -⟩ := mem_walk h hr
  obtain ⟨J', hJ', hrow', -⟩ := mem_walk h hs
  exact absurd (hstable J hJ J' hJ' r hrow s hrow' hid) hlt.ne

/-- **Length.** While the non-terminal keys stay the same, a walk ends after one page more
than there are full ones. -/
theorem walk_length {limit : ℕ} (hlimit : 0 < limit) {keys : List Key}
    (Js : List (List (Row Body))) :
    ∀ cursor : Key, (∀ J ∈ Js, (J.map Row.id).Nodup ∧ openKeys J = keys) →
      (keys.filter fun κ => cursor < κ).length / limit < Js.length →
      ∃ pages, walk limit cursor Js = some pages ∧
        pages.length = (keys.filter fun κ => cursor < κ).length / limit + 1 := by
  induction Js with
  | nil => exact fun cursor _ hlen => absurd hlen (Nat.not_lt_zero _)
  | cons J Js ih =>
    intro cursor hJs hlen
    obtain ⟨hnd, hkeys⟩ := hJs J List.mem_cons_self
    have hleft : ∀ c, remaining J c = (keys.filter fun κ => c < κ).length := by
      intro c
      rw [remaining, hkeys]
    rw [← hleft] at hlen ⊢
    have hpage := active_length cursor limit J
    rw [walk]
    by_cases hshort : (active cursor limit J).length < limit
    · refine ⟨[active cursor limit J], by simp only [if_pos hshort], ?_⟩
      rw [Nat.div_eq_of_lt (by omega)]
      rfl
    · have hnext := remaining_lastKey hnd hlimit hshort
      have hge : limit ≤ remaining J cursor := by omega
      have hdiv := Nat.div_eq_sub_div hlimit hge
      have htail := ih (lastKey cursor (active cursor limit J))
        fun J' hJ' => hJs J' (List.mem_cons_of_mem _ hJ')
      rw [← hleft, hnext] at htail
      obtain ⟨more, hmore, hcount⟩ := htail (by rw [List.length_cons] at hlen; omega)
      refine ⟨active cursor limit J :: more, ?_, ?_⟩
      · simp only [if_neg hshort, hmore, Option.map_some]
      · rw [List.length_cons, hcount, hdiv]

/-- A non-terminal row, for evaluations. -/
def openRow (id : String) (createdAt : ℚ) : Row String where
  id := id
  taskType := "email"
  payload := "body"
  maxRetries := 2
  attempts := 0
  state := .enqueued
  scheduleAt := none
  redisPending := false
  createdAt := createdAt

end ForgeQueue
