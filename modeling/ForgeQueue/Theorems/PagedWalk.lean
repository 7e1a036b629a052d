import ForgeQueue.Logic.Walk

/-!
# The paged walk misses nothing and repeats nothing

Rows are inserted and change their state while the cursor moves through the journal, but
none is deleted and none changes its place in the order of the walk.
-/

namespace ForgeQueue

open Base

variable {Body : Type}

/-- What may happen to the journal between two reads: rows are inserted anywhere, and every
row keeps its `id` and `created_at`. -/
def Evolves (J J' : List (Row Body)) : Prop :=
  ∀ row ∈ J, ∃ row' ∈ J', row'.id = row.id ∧ row'.createdAt = row.createdAt

theorem Evolves.trans {J₁ J₂ J₃ : List (Row Body)} (h : Evolves J₁ J₂) (h' : Evolves J₂ J₃) :
    Evolves J₁ J₃ := by
  intro row hrow
  obtain ⟨row₂, hrow₂, hid₂, hat₂⟩ := h row hrow
  obtain ⟨row₃, hrow₃, hid₃, hat₃⟩ := h' row₂ hrow₂
  exact ⟨row₃, hrow₃, hid₃.trans hid₂, hat₃.trans hat₂⟩

instance : Trans (@Evolves Body) Evolves Evolves := ⟨Evolves.trans⟩

/-- A row is found again under its key. -/
theorem Evolves.key_eq {J J' : List (Row Body)} (h : Evolves J J')
    (hids : (J'.map Row.id).Nodup) {row row' : Row Body} (hrow : row ∈ J) (hrow' : row' ∈ J')
    (hid : row.id = row'.id) : row.key = row'.key := by
  obtain ⟨found, hfound, hidf, hatf⟩ := h row hrow
  obtain rfl : found = row' := List.inj_on_of_nodup_map hids hfound hrow' (hidf.trans hid)
  unfold Row.key
  rw [hidf, hatf]

/-- Keys are stable along an evolution. -/
theorem stable_of_evolves {Js : List (List (Row Body))} (hev : Js.IsChain Evolves)
    (hids : ∀ J ∈ Js, (J.map Row.id).Nodup) : Stable Js := by
  have hpair : Js.Pairwise fun J J' => ∀ row ∈ J, ∀ row' ∈ J', row.id = row'.id →
      row.key = row'.key := by
    refine (List.isChain_iff_pairwise.mp hev).imp_of_mem ?_
    intro J J' _ hJ' hJJ' row hrow row' hrow' hid
    exact hJJ'.key_eq (hids J' hJ') hrow hrow' hid
  refine hpair.forall_of_forall_of_flip ?_ ?_
  · intro J hJ row hrow row' hrow' hid
    rw [List.inj_on_of_nodup_map (hids J hJ) hrow hrow' hid]
  · refine hpair.imp fun {J J'} h row hrow row' hrow' hid => ?_
    exact (h row' hrow' row hrow hid.symm).symm

/-- A task that every read finds non-terminal has one key, and it is open at each of them. -/
theorem openKeys_of_stable {Js : List (List (Row Body))} (hstable : Stable Js) {n : ℕ} {id : String}
    {J₀ : List (Row Body)} {row₀ : Row Body} (hJ₀ : J₀ ∈ Js) (hrow₀ : row₀ ∈ J₀)
    (hid₀ : row₀.id = id)
    (hopen : ∀ J ∈ Js.take n, ∃ row ∈ J, row.id = id ∧ row.state.terminal = false) :
    ∀ J ∈ Js.take n, row₀.key ∈ openKeys J := by
  intro J hJ
  obtain ⟨row, hrow, hid, hst⟩ := hopen J hJ
  refine mem_openKeys.mpr ⟨row, hrow, ?_, hst⟩
  exact hstable J (List.mem_of_mem_take hJ) J₀ hJ₀ row hrow row₀ hrow₀ (hid.trans hid₀.symm)

/-- **The paged walk is exact.** Whatever is inserted and whichever states change between
the reads, in a walk of pages of any size from the zero cursor to the first page that is
not full: a task whose row every read of the walk finds non-terminal is returned exactly
once; a row that is returned was non-terminal in the journal it was read from; and the
rows come in strictly increasing order of `(created_at, id)`. Over a journal that does not
change, with `N` non-terminal rows, the walk ends after `N / limit + 1` pages. `created_at`
is the database's clock at the insert, so no row is as old as Go's zero time. -/
theorem paged_walk_exact {limit : ℕ} (hlimit : 0 < limit) :
    (∀ (Js pages : List (List (Row Body))), Js.IsChain Evolves →
      (∀ J ∈ Js, (J.map Row.id).Nodup) → (∀ J ∈ Js, ∀ row ∈ J, zeroCursor < row.key) →
      walk limit zeroCursor Js = some pages →
      (∀ id, (∀ J ∈ Js.take pages.length, ∃ row ∈ J, row.id = id ∧ row.state.terminal = false) →
        (pages.flatten.map Row.id).count id = 1) ∧
      (∀ (k : ℕ) (page : List (Row Body)), pages[k]? = some page → ∀ row ∈ page,
        ∃ J, Js[k]? = some J ∧ row ∈ J ∧ row.state.terminal = false) ∧
      (pages.flatten.map Row.key).Pairwise (· < ·)) ∧
    ∀ (J : List (Row Body)) (reads : ℕ), (J.map Row.id).Nodup →
      (∀ row ∈ J, zeroCursor < row.key) → (openRows J).length / limit < reads →
      ∃ pages, walk limit zeroCursor (List.replicate reads J) = some pages ∧
        pages.length = (openRows J).length / limit + 1 := by
  constructor
  · intro Js pages hev hids hafter hwalk
    have hstable := stable_of_evolves hev hids
    refine ⟨?_, walk_open hwalk, ?_⟩
    · intro id hopen
      refine List.count_eq_one_of_mem (walk_ids_nodup hlimit hids hstable hwalk) ?_
      -- the key of the task at the first read is its key at all of them
      obtain ⟨J, Js', rfl, -⟩ := walk_cases hwalk
      have hpos : 0 < pages.length := by
        obtain ⟨_, _, -, ⟨-, rfl⟩ | ⟨-, _, -, rfl⟩⟩ := walk_cases hwalk <;> simp
      obtain ⟨row, hrow, hid, -⟩ := hopen J (by
        rw [List.take_cons hpos]
        exact List.mem_cons_self)
      have hkeys := openKeys_of_stable hstable List.mem_cons_self hrow hid hopen
      obtain ⟨found, hfound, hkey⟩ :=
        walk_covers hlimit hids hwalk (hafter J List.mem_cons_self row hrow) hkeys
      refine List.mem_map.mpr ⟨found, hfound, ?_⟩
      rw [← hid]
      exact congrArg Key.id hkey
    · exact List.pairwise_map.mpr (walk_sorted hlimit hids hwalk).1
  · intro J reads hids hafter hreads
    have hsame : ∀ J' ∈ List.replicate reads J,
        (J'.map Row.id).Nodup ∧ openKeys J' = openKeys J := by
      intro J' hJ'
      rw [List.eq_of_mem_replicate hJ']
      exact ⟨hids, rfl⟩
    have hlength := walk_length hlimit (List.replicate reads J) zeroCursor hsame
    rw [openKeys_after_zero hafter, List.length_replicate] at hlength
    exact hlength hreads

/-- Two rows of the same instant; before the second read a third one appears behind the
cursor and the first one is finished. -/
def evolvingJournal : List (List (Row String)) :=
  [[openRow "a" 100, openRow "b" 100],
    [openRow "late" 50, { openRow "a" 100 with state := .succeeded }, openRow "b" 100],
    [openRow "late" 50, { openRow "a" 100 with state := .succeeded }, openRow "b" 100]]

theorem paged_walk_exact_tie :
    ∃ pages, walk 1 zeroCursor evolvingJournal = some pages ∧
      (pages.flatten.map Row.id).count "b" = 1 := by
  obtain ⟨pages, hpages⟩ : ∃ pages, walk 1 zeroCursor evolvingJournal = some pages :=
    Option.isSome_iff_exists.mp (by decide +kernel)
  have hev : evolvingJournal.IsChain Evolves := by
    refine .cons_cons ?_ (.cons_cons ?_ (.singleton _))
    · unfold Evolves
      decide +kernel
    · unfold Evolves
      decide +kernel
  have hids : ∀ J ∈ evolvingJournal, (J.map Row.id).Nodup := by
    decide +kernel
  have hafter : ∀ J ∈ evolvingJournal, ∀ row ∈ J, zeroCursor < row.key := by
    decide +kernel
  have hopen : ∀ J ∈ evolvingJournal, ∃ row ∈ J, row.id = "b" ∧ row.state.terminal = false := by
    decide +kernel
  obtain ⟨hexact, -⟩ := paged_walk_exact Nat.one_pos
  obtain ⟨honce, -, -⟩ := hexact evolvingJournal pages hev hids hafter hpages
  exact ⟨pages, hpages, honce "b" fun J hJ => hopen J (List.mem_of_mem_take hJ)⟩

end ForgeQueue
