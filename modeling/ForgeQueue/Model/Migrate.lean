import ForgeQueue.Base.Run
import Mathlib.Logic.Function.Basic

/-!
# Schema migrations

`internal/durable/postgres.go`, `migrate` and `migrateOnce`: every gateway and worker that
starts applies the migrations that the ledger (`schema_migrations`) does not list, each in a
transaction of its own under one advisory lock. Any number of processes do this at once; a
step is one statement of one process, and every statement may fail, the reply to a commit
may be lost, and a process may crash.

What the SQL of a migration does to the schema is a parameter. Of PostgreSQL the model has
what the code relies on: a transaction takes effect as a whole at its commit or not at all,
the advisory lock is held by one transaction until its commit or rollback, and a statement
sees what is committed when it runs.
-/

namespace ForgeQueue

/-- `migration`. -/
structure Migration where
  version : Int
  name : String
  sql : String
  deriving DecidableEq

/-- Its row in `schema_migrations`. -/
def Migration.row (m : Migration) : Int × String := (m.version, m.name)

/-- The committed state of the database, and the process whose transaction holds the
advisory lock. Without its table the ledger is `none`. -/
structure Database (Schema : Type) where
  ledger : Option (List (Int × String))
  schema : Schema
  lock : Option ℕ

/-- Where a process stands; each constructor names the statement sent next. `applied` is
what it read from the ledger, `todo` what is left of the list of migrations. -/
inductive MigratePc (Schema : Type) where
  /-- `CREATE TABLE IF NOT EXISTS schema_migrations`. -/
  | create
  /-- `SELECT version FROM schema_migrations`. -/
  | read
  /-- The head of the loop. -/
  | scan (applied : List Int) (todo : List Migration)
  /-- `SELECT pg_advisory_xact_lock`. -/
  | begun (applied : List Int) (m : Migration) (todo : List Migration)
  /-- The second look, under the lock. -/
  | locked (applied : List Int) (m : Migration) (todo : List Migration)
  /-- The migration's own SQL. -/
  | checked (applied : List Int) (m : Migration) (todo : List Migration)
  /-- `INSERT INTO schema_migrations`; the transaction has produced `schema`. -/
  | executed (applied : List Int) (m : Migration) (todo : List Migration) (schema : Schema)
  /-- `COMMIT`; the transaction has produced `schema` and the row of the migration. -/
  | inserted (applied : List Int) (m : Migration) (todo : List Migration) (schema : Schema)
  /-- `migrate` returned, nil if `ok`. -/
  | returned (ok : Bool)
  | crashed

/-- A process in its `attempt`-th call of `migrateOnce`, counted from `0`. -/
structure Migrator (Schema : Type) where
  attempt : ℕ
  pc : MigratePc Schema

/-- The database and all processes. -/
structure Fleet (Schema : Type) where
  db : Database Schema
  procs : ℕ → Migrator Schema

/-- A step of a process: its next statement succeeds or fails, a statement that commits
succeeds and the reply is lost, or the process crashes. -/
inductive MigrateAct where
  | next
  | fail
  | lostReply
  | crash
  deriving DecidableEq

section

variable {Schema : Type}

/-- The rows of the ledger. -/
def Database.rows (db : Database Schema) : List (Int × String) := db.ledger.getD []

/-- The versions in the ledger. -/
def Database.versions (db : Database Schema) : List Int := db.rows.map (·.1)

/-- `CREATE TABLE IF NOT EXISTS` of the ledger. -/
def Database.createLedger (db : Database Schema) : Database Schema :=
  { db with ledger := some db.rows }

/-- The end of a transaction of process `i` without a commit. -/
def Database.rollback (db : Database Schema) (i : ℕ) : Database Schema :=
  { db with lock := if db.lock = some i then none else db.lock }

/-- The end of the transaction of a migration with a commit. -/
def Database.commit (db : Database Schema) (m : Migration) (schema : Schema) :
    Database Schema where
  ledger := some (db.rows ++ [m.row])
  schema := schema
  lock := none

/-- A process before its first statement. -/
def Migrator.fresh : Migrator Schema := ⟨0, .create⟩

/-- Nobody has started. -/
def Fleet.start (db : Database Schema) : Fleet Schema where
  db := { db with lock := none }
  procs := fun _ => .fresh

/-- `migrateOnce` returned an error: `migrate` tries again, five times in all. -/
def Migrator.retry (p : Migrator Schema) : Migrator Schema :=
  if p.attempt + 1 < 5 then ⟨p.attempt + 1, .create⟩ else ⟨p.attempt, .returned false⟩

/-- The process is about to send a statement. -/
def Migrator.sends (p : Migrator Schema) : Bool :=
  match p.pc with
  | .scan applied (m :: _) => m.version ∉ applied
  | .scan _ [] | .returned _ | .crashed => false
  | _ => true

/-- What the next statement of process `i` does to the database, and where the process
stands then. `none` for the process is an error of the statement, `none` for both is a wait
for the lock or the end of the process. -/
def migrateNext (exec : String → Schema → Option Schema) (migrations : List Migration) (i : ℕ)
    (db : Database Schema) : MigratePc Schema → Option (Database Schema × Option (MigratePc Schema))
  | .create => some (db.createLedger, some .read)
  | .read =>
    match db.ledger with
    | none => some (db, none)
    | some rows => some (db, some (.scan (rows.map (·.1)) migrations))
  | .scan _ [] => some (db, some (.returned true))
  | .scan applied (m :: todo) =>
    if m.version ∈ applied then some (db, some (.scan applied todo))
    else some (db, some (.begun applied m todo))
  | .begun applied m todo =>
    match db.lock with
    | none => some ({ db with lock := some i }, some (.locked applied m todo))
    | some _ => none
  | .locked applied m todo =>
    if m.version ∈ db.versions then some (db.rollback i, some (.scan applied todo))
    else some (db, some (.checked applied m todo))
  | .checked applied m todo =>
    match exec m.sql db.schema with
    | none => some (db, none)
    | some schema => some (db, some (.executed applied m todo schema))
  | .executed applied m todo schema =>
    -- the version is the primary key
    if m.version ∈ db.versions then some (db, none)
    else some (db, some (.inserted applied m todo schema))
  | .inserted applied m todo schema => some (db.commit m schema, some (.scan applied todo))
  | .returned _ | .crashed => none

/-- Process `i` gets where it stands then, with an error on to the next attempt. -/
def Fleet.move (s : Fleet Schema) (i : ℕ) (db : Database Schema)
    (pc : Option (MigratePc Schema)) : Fleet Schema :=
  match pc with
  | some pc => ⟨db, Function.update s.procs i { s.procs i with pc := pc }⟩
  | none => ⟨db.rollback i, Function.update s.procs i (s.procs i).retry⟩

/-- One step of one process. -/
def Fleet.step (exec : String → Schema → Option Schema) (migrations : List Migration)
    (s : Fleet Schema) (act : ℕ × MigrateAct) : Option (Fleet Schema) :=
  let i := act.1
  match act.2 with
  | .next => (migrateNext exec migrations i s.db (s.procs i).pc).map fun r => s.move i r.1 r.2
  | .fail => if (s.procs i).sends then some (s.move i s.db none) else none
  | .lostReply =>
    match (s.procs i).pc with
    | .create => some (s.move i s.db.createLedger none)
    | .inserted _ m _ schema => some (s.move i (s.db.commit m schema) none)
    | _ => none
  | .crash =>
    some ⟨s.db.rollback i, Function.update s.procs i { s.procs i with pc := .crashed }⟩

/-- The sequential migrator: the list applied in order, once each. -/
def applyAll (exec : String → Schema → Option Schema) : List Migration → Schema → Option Schema
  | [], schema => some schema
  | m :: rest, schema => (exec m.sql schema).bind (applyAll exec rest)

end

end ForgeQueue
