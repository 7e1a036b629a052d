import ForgeQueue.Model.Migrate

/-!
# Concurrent migration is sequential migration

The processes read the ledger before they take the lock, so what they read may be old. It is
never wrong, though: the ledger only grows, so a version that was read is still there, and a
version that was not read is looked up again under the lock. Hence the holder of the lock
that finds its migration missing has found the first missing one, and whatever the
interleaving, the failures and the crashes, the database holds the migrations of a prefix of
the list (`concurrent_migration_is_sequential`).
-/

namespace ForgeQueue

open Base

variable {Schema : Type}

/-- The database holds exactly the first `k` migrations, applied to `base` in order. -/
structure Applied (exec : String → Schema → Option Schema) (migrations : List Migration)
    (base : Schema) (k : ℕ) (db : Database Schema) : Prop where
  ledger : db.rows = (migrations.take k).map (·.row)
  schema : applyAll exec (migrations.take k) base = some db.schema

/-! ## Prefixes -/

/-- What an increasing list has before a position is not behind it. -/
theorem length_le_of_versions {migrations passed todo : List Migration} {k : ℕ}
    (hinc : migrations.Pairwise (·.version < ·.version)) (hsplit : migrations = passed ++ todo)
    (hin : ∀ m ∈ passed, m.version ∈ (migrations.take k).map (·.version)) :
    passed.length ≤ k := by
  by_contra hlt
  rw [Nat.not_le] at hlt
  -- the migration at position `k` is passed, but not among the first `k`
  have hk : k < migrations.length := by
    rw [hsplit, List.length_append]
    omega
  have hpassed : migrations[k] ∈ passed := by
    simp only [hsplit, List.getElem_append_left hlt]
    exact List.getElem_mem hlt
  obtain ⟨m, hm, hver⟩ := List.mem_map.mp (hin _ hpassed)
  have hdrop : migrations[k] ∈ migrations.drop k := by
    rw [List.drop_eq_getElem_cons hk]
    exact List.mem_cons_self
  rw [← List.take_append_drop k migrations, List.pairwise_append] at hinc
  have hless := hinc.2.2 m hm _ hdrop
  omega

/-- The first missing migration. -/
theorem length_eq_of_missing {migrations passed todo : List Migration} {m : Migration} {k : ℕ}
    (hinc : migrations.Pairwise (·.version < ·.version))
    (hsplit : migrations = passed ++ m :: todo)
    (hin : ∀ x ∈ passed, x.version ∈ (migrations.take k).map (·.version))
    (hnot : m.version ∉ (migrations.take k).map (·.version)) : k = passed.length := by
  have hle := length_le_of_versions hinc hsplit hin
  by_contra hne
  obtain ⟨n, rfl⟩ : ∃ n, k = passed.length + (n + 1) := ⟨k - passed.length - 1, by omega⟩
  refine hnot (List.mem_map_of_mem ?_)
  rw [hsplit, List.take_length_add_append, List.take_succ_cons]
  exact List.mem_append_right _ List.mem_cons_self

theorem applyAll_append (exec : String → Schema → Option Schema) (l₁ l₂ : List Migration)
    (schema : Schema) :
    applyAll exec (l₁ ++ l₂) schema = (applyAll exec l₁ schema).bind (applyAll exec l₂) := by
  induction l₁ generalizing schema with
  | nil => rfl
  | cons m l₁ ih =>
    rw [List.cons_append, applyAll, applyAll, Option.bind_assoc]
    congr 1
    funext s
    exact ih s

section

variable {exec : String → Schema → Option Schema} {migrations : List Migration} {base : Schema}

theorem Applied.versions {k : ℕ} {db : Database Schema} (h : Applied exec migrations base k db) :
    db.versions = (migrations.take k).map (·.version) := by
  rw [Database.versions, h.ledger, List.map_map]
  rfl

/-- **The next migration.** A commit of a migration that is missing although all before it
are there gives the next prefix. -/
theorem Applied.commit {k : ℕ} {db : Database Schema} {passed todo : List Migration}
    {m : Migration} {schema : Schema} (h : Applied exec migrations base k db)
    (hinc : migrations.Pairwise (·.version < ·.version))
    (hsplit : migrations = passed ++ m :: todo) (hin : ∀ x ∈ passed, x.version ∈ db.versions)
    (hnot : m.version ∉ db.versions) (hexec : exec m.sql db.schema = some schema) :
    Applied exec migrations base (k + 1) (db.commit m schema) := by
  rw [h.versions] at hin hnot
  have hk := length_eq_of_missing hinc hsplit hin hnot
  have htake : migrations.take (k + 1) = migrations.take k ++ [m] := by
    rw [hsplit, hk, List.take_length_add_append, List.take_left]
    rfl
  refine ⟨?_, ?_⟩
  · rw [htake, List.map_append, ← h.ledger]
    rfl
  · rw [htake, applyAll_append, h.schema, Option.bind_some, applyAll, hexec]
    rfl

/-! ## The processes -/

/-- What a process has read is in the ledger, and so is everything it has passed. -/
structure Seen (migrations : List Migration) (db : Database Schema) (applied : List Int)
    (todo : List Migration) : Prop where
  known : ∀ v ∈ applied, v ∈ db.versions
  passed : ∃ passed, migrations = passed ++ todo ∧ ∀ m ∈ passed, m.version ∈ db.versions

/-- What holds of process `i` at each point of `migrateOnce`. -/
def ProcOk (exec : String → Schema → Option Schema) (migrations : List Migration)
    (db : Database Schema) (i : ℕ) : MigratePc Schema → Prop
  | .create | .read | .returned false | .crashed => True
  | .scan applied todo => Seen migrations db applied todo
  | .begun applied m todo => Seen migrations db applied (m :: todo)
  | .locked applied m todo => Seen migrations db applied (m :: todo) ∧ db.lock = some i
  | .checked applied m todo =>
    Seen migrations db applied (m :: todo) ∧ db.lock = some i ∧ m.version ∉ db.versions
  | .executed applied m todo schema | .inserted applied m todo schema =>
    Seen migrations db applied (m :: todo) ∧ db.lock = some i ∧ m.version ∉ db.versions ∧
      exec m.sql db.schema = some schema
  | .returned true => ∀ m ∈ migrations, m.version ∈ db.versions

/-- What the others see of a step of process `i`: the ledger grows, and while one of them
holds the lock nothing changes. -/
structure Frame (i : ℕ) (db db' : Database Schema) : Prop where
  grows : ∀ v ∈ db.versions, v ∈ db'.versions
  held : ∀ j, j ≠ i → db.lock = some j →
    db'.lock = some j ∧ db'.rows = db.rows ∧ db'.schema = db.schema

theorem Seen.mono {db db' : Database Schema} {applied : List Int} {todo : List Migration}
    (h : Seen migrations db applied todo) (hgrows : ∀ v ∈ db.versions, v ∈ db'.versions) :
    Seen migrations db' applied todo := by
  obtain ⟨passed, hsplit, hin⟩ := h.passed
  exact ⟨fun v hv => hgrows v (h.known v hv), passed, hsplit, fun m hm => hgrows _ (hin m hm)⟩

/-- A migration that is in the ledger is passed. -/
theorem Seen.pass {db : Database Schema} {applied : List Int} {m : Migration}
    {todo : List Migration} (h : Seen migrations db applied (m :: todo))
    (hm : m.version ∈ db.versions) : Seen migrations db applied todo := by
  obtain ⟨passed, hsplit, hin⟩ := h.passed
  refine ⟨h.known, passed ++ [m], by simp [hsplit], fun x hx => ?_⟩
  rcases List.mem_append.mp hx with hx | hx
  · exact hin x hx
  · rw [List.mem_singleton.mp hx]
    exact hm

/-- A step of another process does not disturb. -/
theorem ProcOk.frame {i j : ℕ} {db db' : Database Schema} {pc : MigratePc Schema}
    (h : ProcOk exec migrations db j pc) (hf : Frame i db db') (hne : j ≠ i) :
    ProcOk exec migrations db' j pc := by
  have hversions : db.lock = some j → db'.versions = db.versions := by
    intro hlock
    rw [Database.versions, Database.versions, (hf.held j hne hlock).2.1]
  -- the two points at which the transaction has run the SQL
  have hstaged : ∀ applied m todo schema,
      ProcOk exec migrations db j (.executed applied m todo schema) →
        ProcOk exec migrations db' j (.executed applied m todo schema) := by
    rintro applied m todo schema ⟨hseen, hlock, hnot, hexec⟩
    refine ⟨hseen.mono hf.grows, (hf.held j hne hlock).1, ?_, ?_⟩
    · rw [hversions hlock]
      exact hnot
    · rw [(hf.held j hne hlock).2.2]
      exact hexec
  cases pc with
  | create => trivial
  | read => trivial
  | scan applied todo => exact Seen.mono h hf.grows
  | begun applied m todo => exact Seen.mono h hf.grows
  | locked applied m todo =>
    obtain ⟨hseen, hlock⟩ := h
    exact ⟨hseen.mono hf.grows, (hf.held j hne hlock).1⟩
  | checked applied m todo =>
    obtain ⟨hseen, hlock, hnot⟩ := h
    refine ⟨hseen.mono hf.grows, (hf.held j hne hlock).1, ?_⟩
    rw [hversions hlock]
    exact hnot
  | executed applied m todo schema => exact hstaged applied m todo schema h
  | inserted applied m todo schema => exact hstaged applied m todo schema h
  | returned ok =>
    cases ok with
    | true => exact fun m hm => hf.grows _ (h m hm)
    | false => trivial
  | crashed => trivial

/-! ## One statement -/

/-- A change that keeps what is committed. -/
theorem Applied.congr {k : ℕ} {db db' : Database Schema} (h : Applied exec migrations base k db)
    (hrows : db'.rows = db.rows) (hschema : db'.schema = db.schema) :
    Applied exec migrations base k db' :=
  ⟨hrows.trans h.ledger, hschema ▸ h.schema⟩

theorem Frame.refl (i : ℕ) (db : Database Schema) : Frame i db db :=
  ⟨fun _ hv => hv, fun _ _ hlock => ⟨hlock, rfl, rfl⟩⟩

theorem frame_rollback (i : ℕ) (db : Database Schema) : Frame i db (db.rollback i) := by
  refine ⟨fun _ hv => hv, fun j hne hlock => ⟨?_, rfl, rfl⟩⟩
  show (if db.lock = some i then none else db.lock) = some j
  rw [hlock, if_neg (fun h => hne (Option.some.inj h))]

theorem frame_createLedger (i : ℕ) (db : Database Schema) : Frame i db db.createLedger :=
  ⟨fun _ hv => hv, fun _ _ hlock => ⟨hlock, rfl, rfl⟩⟩

/-- Only the holder of the lock commits. -/
theorem frame_commit {i : ℕ} {db : Database Schema} (hlock : db.lock = some i) (m : Migration)
    (schema : Schema) : Frame i db (db.commit m schema) := by
  refine ⟨fun v hv => ?_, fun j hne hj => ?_⟩
  · show v ∈ (db.rows ++ [m.row]).map (·.1)
    rw [List.map_append]
    exact List.mem_append_left _ hv
  · rw [hlock] at hj
    exact absurd (Option.some.inj hj).symm hne

/-- What a statement of process `i` may do. -/
structure StatementOk (exec : String → Schema → Option Schema) (migrations : List Migration)
    (base : Schema) (i : ℕ) (db db' : Database Schema) (pc : Option (MigratePc Schema)) : Prop where
  applied : ∃ k, Applied exec migrations base k db'
  frame : Frame i db db'
  proc : ∀ next, pc = some next → ProcOk exec migrations db' i next

/-- A commit by the holder of the lock, which found its migration missing. -/
theorem commit_ok {i k : ℕ} {db : Database Schema} {applied : List Int} {m : Migration}
    {todo : List Migration} {schema : Schema}
    (hinc : migrations.Pairwise (·.version < ·.version)) (h : Applied exec migrations base k db)
    (hproc : ProcOk exec migrations db i (.inserted applied m todo schema)) :
    StatementOk exec migrations base i db (db.commit m schema) (some (.scan applied todo)) := by
  obtain ⟨hseen, hlock, hnot, hexec⟩ := hproc
  obtain ⟨passed, hsplit, hin⟩ := hseen.passed
  have hframe := frame_commit hlock m schema
  refine ⟨⟨k + 1, h.commit hinc hsplit hin hnot hexec⟩, hframe, ?_⟩
  rintro _ ⟨⟩
  refine (hseen.mono hframe.grows).pass ?_
  show m.version ∈ (db.rows ++ [m.row]).map (·.1)
  simp [Migration.row]

/-- **One statement.** Whatever a process sends next keeps the database a prefix, and the
process in order. -/
theorem migrateNext_ok {i k : ℕ} {db db' : Database Schema} {pc : MigratePc Schema}
    {next : Option (MigratePc Schema)} (hinc : migrations.Pairwise (·.version < ·.version))
    (h : Applied exec migrations base k db) (hproc : ProcOk exec migrations db i pc)
    (hnext : migrateNext exec migrations i db pc = some (db', next)) :
    StatementOk exec migrations base i db db' next := by
  cases pc with
  | create =>
    obtain ⟨rfl, rfl⟩ := Prod.mk.inj (Option.some.inj hnext)
    exact ⟨⟨k, h.congr rfl rfl⟩, frame_createLedger i db, fun _ h => Option.some.inj h ▸ trivial⟩
  | read =>
    simp only [migrateNext] at hnext
    split at hnext
    · obtain ⟨rfl, rfl⟩ := Prod.mk.inj (Option.some.inj hnext)
      exact ⟨⟨k, h⟩, .refl i db, nofun⟩
    · rename_i rows hrows
      obtain ⟨rfl, rfl⟩ := Prod.mk.inj (Option.some.inj hnext)
      refine ⟨⟨k, h⟩, .refl i db, ?_⟩
      rintro _ ⟨⟩
      refine ⟨fun v hv => ?_, [], rfl, nofun⟩
      rw [Database.versions, Database.rows, hrows]
      exact hv
  | scan applied todo =>
    cases todo with
    | nil =>
      obtain ⟨rfl, rfl⟩ := Prod.mk.inj (Option.some.inj hnext)
      obtain ⟨passed, hsplit, hin⟩ := hproc.passed
      refine ⟨⟨k, h⟩, .refl i db, ?_⟩
      rintro _ ⟨⟩
      rw [List.append_nil] at hsplit
      rw [← hsplit] at hin
      exact hin
    | cons m todo =>
      simp only [migrateNext] at hnext
      split at hnext
      · rename_i happlied
        obtain ⟨rfl, rfl⟩ := Prod.mk.inj (Option.some.inj hnext)
        refine ⟨⟨k, h⟩, .refl i db, ?_⟩
        rintro _ ⟨⟩
        exact Seen.pass hproc (hproc.known _ happlied)
      · obtain ⟨rfl, rfl⟩ := Prod.mk.inj (Option.some.inj hnext)
        exact ⟨⟨k, h⟩, .refl i db, fun _ hpc => Option.some.inj hpc ▸ hproc⟩
  | begun applied m todo =>
    simp only [migrateNext] at hnext
    split at hnext
    · rename_i hfree
      obtain ⟨rfl, rfl⟩ := Prod.mk.inj (Option.some.inj hnext)
      have hframe : Frame i db { db with lock := some i } :=
        ⟨fun _ hv => hv, fun j _ hj => absurd (hfree.symm.trans hj) nofun⟩
      refine ⟨⟨k, h.congr rfl rfl⟩, hframe, ?_⟩
      rintro _ ⟨⟩
      exact ⟨Seen.mono hproc hframe.grows, rfl⟩
    · cases hnext
  | locked applied m todo =>
    obtain ⟨hseen, hlock⟩ := hproc
    simp only [migrateNext] at hnext
    split at hnext
    · rename_i hexists
      obtain ⟨rfl, rfl⟩ := Prod.mk.inj (Option.some.inj hnext)
      refine ⟨⟨k, h.congr rfl rfl⟩, frame_rollback i db, ?_⟩
      rintro _ ⟨⟩
      exact Seen.pass (hseen.mono (frame_rollback i db).grows) hexists
    · rename_i hmissing
      obtain ⟨rfl, rfl⟩ := Prod.mk.inj (Option.some.inj hnext)
      exact ⟨⟨k, h⟩, .refl i db, fun _ hpc => Option.some.inj hpc ▸ ⟨hseen, hlock, hmissing⟩⟩
  | checked applied m todo =>
    obtain ⟨hseen, hlock, hnot⟩ := hproc
    simp only [migrateNext] at hnext
    split at hnext
    · obtain ⟨rfl, rfl⟩ := Prod.mk.inj (Option.some.inj hnext)
      exact ⟨⟨k, h⟩, .refl i db, nofun⟩
    · rename_i schema hexec
      obtain ⟨rfl, rfl⟩ := Prod.mk.inj (Option.some.inj hnext)
      exact ⟨⟨k, h⟩, .refl i db,
        fun _ hpc => Option.some.inj hpc ▸ ⟨hseen, hlock, hnot, hexec⟩⟩
  | executed applied m todo schema =>
    simp only [migrateNext] at hnext
    split at hnext
    · obtain ⟨rfl, rfl⟩ := Prod.mk.inj (Option.some.inj hnext)
      exact ⟨⟨k, h⟩, .refl i db, nofun⟩
    · obtain ⟨rfl, rfl⟩ := Prod.mk.inj (Option.some.inj hnext)
      exact ⟨⟨k, h⟩, .refl i db, fun _ hpc => Option.some.inj hpc ▸ hproc⟩
  | inserted applied m todo schema =>
    obtain ⟨rfl, rfl⟩ := Prod.mk.inj (Option.some.inj hnext)
    exact commit_ok hinc h hproc
  | returned ok => cases hnext
  | crashed => cases hnext

/-! ## The fleet -/

/-- The invariant: the database is a prefix, and every process is in order. -/
structure FleetOk (exec : String → Schema → Option Schema) (migrations : List Migration)
    (base : Schema) (s : Fleet Schema) : Prop where
  applied : ∃ k, Applied exec migrations base k s.db
  procs : ∀ i, ProcOk exec migrations s.db i (s.procs i).pc

theorem retry_ok (db : Database Schema) (i : ℕ) (p : Migrator Schema) :
    ProcOk exec migrations db i p.retry.pc := by
  unfold Migrator.retry
  split <;> trivial

/-- Process `i` and the database change, the others stay. -/
theorem FleetOk.update {s : Fleet Schema} {i : ℕ} {db : Database Schema} {p : Migrator Schema}
    (h : FleetOk exec migrations base s) (happlied : ∃ k, Applied exec migrations base k db)
    (hframe : Frame i s.db db) (hproc : ProcOk exec migrations db i p.pc) :
    FleetOk exec migrations base ⟨db, Function.update s.procs i p⟩ := by
  refine ⟨happlied, fun j => ?_⟩
  by_cases hj : j = i
  · subst hj
    show ProcOk exec migrations db j (Function.update s.procs j p j).pc
    rw [Function.update_self]
    exact hproc
  · show ProcOk exec migrations db j (Function.update s.procs i p j).pc
    rw [Function.update_of_ne hj]
    exact (h.procs j).frame hframe hj

theorem FleetOk.move {s : Fleet Schema} {i : ℕ} {db : Database Schema}
    {pc : Option (MigratePc Schema)} (h : FleetOk exec migrations base s)
    (hok : StatementOk exec migrations base i s.db db pc) :
    FleetOk exec migrations base (s.move i db pc) := by
  cases pc with
  | some pc => exact h.update hok.applied hok.frame (hok.proc pc rfl)
  | none =>
    obtain ⟨k, hk⟩ := hok.applied
    refine h.update ⟨k, hk.congr rfl rfl⟩ ?_ (retry_ok _ i _)
    -- the rollback of what is left of the transaction
    have hback := frame_rollback i db
    refine ⟨fun v hv => hback.grows v (hok.frame.grows v hv), fun j hne hj => ?_⟩
    obtain ⟨hlock, hrows, hschema⟩ := hok.frame.held j hne hj
    obtain ⟨hlock', hrows', hschema'⟩ := hback.held j hne hlock
    exact ⟨hlock', hrows'.trans hrows, hschema'.trans hschema⟩

theorem FleetOk.step {s s' : Fleet Schema} {act : ℕ × MigrateAct}
    (hinc : migrations.Pairwise (·.version < ·.version)) (h : FleetOk exec migrations base s)
    (hstep : s.step exec migrations act = some s') : FleetOk exec migrations base s' := by
  obtain ⟨i, act⟩ := act
  obtain ⟨k, hk⟩ := h.applied
  cases act with
  | next =>
    simp only [Fleet.step, Option.map_eq_some_iff] at hstep
    obtain ⟨⟨db, pc⟩, hnext, rfl⟩ := hstep
    exact h.move (migrateNext_ok hinc hk (h.procs i) hnext)
  | fail =>
    simp only [Fleet.step] at hstep
    split at hstep
    · obtain rfl := Option.some.inj hstep
      exact h.move ⟨⟨k, hk⟩, .refl i s.db, nofun⟩
    · cases hstep
  | lostReply =>
    simp only [Fleet.step] at hstep
    split at hstep
    · obtain rfl := Option.some.inj hstep
      exact h.move ⟨⟨k, hk.congr rfl rfl⟩, frame_createLedger i s.db, nofun⟩
    · rename_i applied m todo schema hpc
      obtain rfl := Option.some.inj hstep
      have hproc := h.procs i
      rw [hpc] at hproc
      have hcommit := commit_ok hinc hk hproc
      exact h.move ⟨hcommit.applied, hcommit.frame, nofun⟩
    · cases hstep
  | crash =>
    obtain rfl := Option.some.inj hstep
    exact h.update ⟨k, hk.congr rfl rfl⟩ (frame_rollback i s.db) trivial

/-- **Concurrent migration.** For every list of migrations with increasing versions, every
database that holds a prefix of it, any number of processes and every run of them with any
failures, lost replies and crashes: the database holds a prefix of the list, each migration
of it applied once and in order, and when some process has returned nil it holds the whole
list. -/
theorem concurrent_migration_is_sequential {start : Database Schema} {s : Fleet Schema}
    {acts : List (ℕ × MigrateAct)} (hinc : migrations.Pairwise (·.version < ·.version))
    (hstart : ∃ k, Applied exec migrations base k start)
    (hrun : Run (Fleet.step exec migrations) (fun _ _ => True) (.start start) acts s) :
    (∃ k, Applied exec migrations base k s.db) ∧
      ∀ i, (s.procs i).pc = .returned true →
        Applied exec migrations base migrations.length s.db := by
  obtain ⟨k₀, hk₀⟩ := hstart
  have hok : FleetOk exec migrations base s := by
    refine hrun.invariant (FleetOk exec migrations base)
      (fun _ _ _ _ hstep h => h.step hinc hstep) ?_
    exact ⟨⟨k₀, hk₀.congr rfl rfl⟩, fun i => trivial⟩
  refine ⟨hok.applied, fun i hpc => ?_⟩
  obtain ⟨k, hk⟩ := hok.applied
  have hall : ∀ m ∈ migrations, m.version ∈ s.db.versions := by
    have hproc := hok.procs i
    rw [hpc] at hproc
    exact hproc
  rw [hk.versions] at hall
  have hle : migrations.length ≤ k :=
    length_le_of_versions hinc (List.append_nil migrations).symm hall
  have htake : migrations.take k = migrations.take migrations.length := by
    rw [List.take_of_length_le hle, List.take_length]
  exact ⟨htake ▸ hk.ledger, htake ▸ hk.schema⟩

end

/-! ## A race -/

/-- Two migrations. -/
def twoMigrations : List Migration :=
  [⟨1, "queue_tasks", "CREATE TABLE"⟩, ⟨2, "index", "CREATE INDEX"⟩]

/-- A schema as the list of the statements that made it. -/
def record (sql : String) (schema : List String) : Option (List String) := some (schema ++ [sql])

/-- Both processes read the empty ledger; the first commits the first migration and does not
hear of it, the second finds it done under the lock and goes on to the end. -/
theorem concurrent_migration_is_sequential_race :
    ∃ s : Fleet (List String), (s.procs 1).pc = .returned true ∧
      Applied record twoMigrations [] 2 s.db := by
  have hend : (runList (Fleet.step record twoMigrations) (.start ⟨none, [], none⟩)
      ([(0, .next), (1, .next), (0, .next), (1, .next), (0, .next), (1, .next), (0, .next),
        (0, .next), (0, .next), (0, .next), (0, .lostReply)] ++
        .replicate 9 (1, .next))).any
      (fun s => match (s.procs 1).pc with
        | .returned true => true
        | _ => false) = true := by
    decide +kernel
  obtain ⟨s, hrun, hs⟩ := Run.exists_of_any (fun _ _ _ => trivial) hend
  have hpc : (s.procs 1).pc = .returned true := by
    split at hs
    · assumption
    · cases hs
  refine ⟨s, hpc, (concurrent_migration_is_sequential ?_ ⟨0, rfl, rfl⟩ hrun).2 1 hpc⟩
  decide

end ForgeQueue
