import Kohaku.Sql.Table
import Kohaku.Steps.Fallible
import Kohaku.Text

/-!
# Migrations at startup

`prepare` as its sequence of steps, each of which may fail without effect or be the one at which the
process is killed. A migration is a function on databases, run in one transaction with its version
bump; the pre-migration copy is written under a temporary name in the backups directory and renamed,
and only then are older copies pruned.
-/

namespace Kohaku.Migrate

open Sql Fallible

/-! ## Databases and migrations -/

/-- What SQLite makes of a database. -/
structure Sqlite (δ : Type) where
  /-- `PRAGMA user_version`. -/
  userVersion : δ → Nat
  setUserVersion : δ → Nat → δ
  /-- Whether there is any schema object. -/
  hasSchema : δ → Bool
  /-- Whether there is a table `meta`. -/
  storedMetaExists : δ → Bool
  /-- `SELECT keycheck FROM meta WHERE id = 1`; the outer `none` when the query fails. -/
  selectKeycheck : δ → Option (Option Bytes)
  /-- `INSERT INTO meta`; `none` when it fails. -/
  insertKeycheck : δ → Bytes → Time → Option δ
  /-- `PRAGMA foreign_key_check` finds something. -/
  violation : δ → Bool
  hasSchema_of_meta : ∀ {db}, storedMetaExists db = true → hasSchema db = true
  userVersion_set : ∀ db n, userVersion (setUserVersion db n) = n
  metaExists_set : ∀ db n, storedMetaExists (setUserVersion db n) = storedMetaExists db
  selectKeycheck_set : ∀ db n, selectKeycheck (setUserVersion db n) = selectKeycheck db
  selectKeycheck_insert : ∀ {db key now db'}, insertKeycheck db key now = some db' →
    selectKeycheck db' = some (some key)

/-- An embedded migration; `sql` is `execute_batch` of its text, `none` when a statement fails. -/
structure Migration (δ : Type) where
  version : Nat
  name : Str
  sql : δ → Option δ

variable {δ : Type}

/-- Numbered 1, 2, 3, … without gaps. -/
def Numbered (migrations : List (Migration δ)) : Prop :=
  migrations.map Migration.version = List.range' 1 migrations.length

/-- `newest`: the version of the last migration. -/
def newest (migrations : List (Migration δ)) : Nat :=
  (migrations.getLast?.map Migration.version).getD 0

/-- `MigrateError`, and the end of a process that is killed. -/
inductive MigrateError
  | downgrade (database binary : Nat)
  | notKohaku
  | keycheckMismatch
  | keycheckMissing
  | preMigrationCopy
  | foreignKeyViolation (migration : Str)
  | statement (migration : Str)
  | database
  /-- The process is killed. -/
  | killed
  deriving DecidableEq

variable (S : Sqlite δ) (key : Bytes)

/-- The stored keycheck, the inner `none` when `meta` or its row is missing. -/
def Sqlite.storedKeycheck (db : δ) : Option (Option Bytes) :=
  if S.storedMetaExists db then S.selectKeycheck db else some none

/-- What a migration's transaction commits, or the error that rolls it back; a new database gets its
keycheck in migration 1's. -/
def applyInTransaction (migration : Migration δ) (now : Time) (db : δ) : Except MigrateError δ := do
  let db ← (migration.sql db).elim (.error (.statement migration.name)) .ok
  let db ← if migration.version = 1 then
      (S.insertKeycheck db key now).elim (.error (.statement migration.name)) .ok
    else .ok db
  let db := S.setUserVersion db migration.version
  if S.violation db then .error (.foreignKeyViolation migration.name) else .ok db

/-! ## The backups directory -/

/-- What a file holds: a copy of a database, or other bytes. -/
inductive Contents (δ : Type)
  | copy (db : δ)
  | data (bytes : Bytes)
  deriving DecidableEq

/-- What a directory entry is. -/
inductive Node (δ : Type)
  | file (contents : Contents δ)
  | directory
  | other
  deriving DecidableEq

/-- `FileType::is_file`. -/
def Node.isFile : Node δ → Bool
  | .file _ => true
  | _ => false

/-- An entry of a directory; a name is any byte string. -/
structure DirEntry (δ : Type) where
  name : Bytes
  node : Node δ
  deriving DecidableEq

/-- The backups directory, by names. -/
abbrev Directory (δ : Type) := Table (DirEntry δ) DirEntry.name

/-- The database and the backups directory, if there is one. -/
structure Data (δ : Type) where
  db : δ
  backups : Option (Directory δ)

/-- The `{unixtime}` of a `pre-migrate-v{digits}-{digits}.db` name. -/
def preMigrationTime (name : Bytes) : Option Nat := do
  let name ← fromUtf8 name
  let rest ← name.dropPrefix? "pre-migrate-v".toList
  let rest ← rest.dropSuffix? ".db".toList
  let (version, time) ← splitOnce '-' rest
  if isDigits version && isDigits time then parseDigits 64 time else none

/-- `pre-migrate-v{old}-{now}.db`. -/
def copyName (old : Nat) (now : Time) : Bytes :=
  asBytes ("pre-migrate-v".toList ++ Nat.toDigits 10 old ++ '-' :: padded 0 now ++ ".db".toList)

/-- `{b:02x}` of each byte. -/
def hex (bytes : Bytes) : Str := bytes.flatMap fun b => (Nat.toDigits 16 b.toNat).leftpad 2 '0'

/-- The name `create_tmp` tries with the bytes it draws. -/
def tmpName (nonce : Vector UInt8 8) : Bytes :=
  asBytes (".pre-migrate.".toList ++ hex nonce.toList ++ ".tmp".toList)

/-! ## One start -/

/-- The steps of `prepare` at which it can fail or be killed. -/
inductive Step
  | readVersion
  | readSchema
  | readKeycheck
  | insertKeycheck
  | createBackups
  | syncRoot
  | createTmp
  | vacuumInto
  | flush
  | rename
  | syncDir
  /-- The removal of the temporary file after an error, whose own failure is ignored. -/
  | cleanup
  | readDir
  | removeCopy (name : Bytes)
  | syncPruned
  | foreignKeysOff (version : Nat)
  | transaction (version : Nat)
  | foreignKeysOn (version : Nat)
  deriving DecidableEq

/-- How a step ends before its effect. -/
inductive Stop
  | fails
  | killed
  deriving DecidableEq

/-- One start of the server: its clock, the bytes it draws for the temporary name and the steps at
which it stops. -/
structure Start where
  now : Time
  nonces : List (Vector UInt8 8)
  stops : Step → Option Stop

/-- A part of `prepare` over the data directory. -/
abbrev Prepare (δ : Type) := Prog (Data δ) MigrateError

variable (migrations : List (Migration δ)) (start : Start)

/-- One step: it is stopped without effect or changes the data. -/
def step (s : Step) (error : MigrateError) (effect : Data δ → Data δ) : Prepare δ Unit :=
  attempt (start.stops s).isSome (if start.stops s = some .killed then .killed else error) effect

/-- `check_keycheck` of `serve`, which completes a missing keycheck. -/
def checkKeycheck : Prepare δ Unit := do
  step start .readKeycheck .database id
  let db := (← get).db
  match S.storedKeycheck db with
  | none => throw .database
  | some (some stored) => attempt (stored ≠ key) .keycheckMismatch id
  | some none =>
    attempt (!S.storedMetaExists db) .keycheckMissing id
    let completed := S.insertKeycheck db key start.now
    attempt completed.isNone .database id
    step start .insertKeycheck .database fun d => { d with db := completed.getD db }

/-- Changes the backups directory, if there is one. -/
def Data.inBackups (f : Directory δ → Directory δ) (d : Data δ) : Data δ :=
  { d with backups := d.backups.map f }

/-- `ensure_backups`. -/
def ensureBackups : Prepare δ Unit := do
  let missing := (← get).backups.isNone
  step start .createBackups .preMigrationCopy fun d =>
    { d with backups := some (d.backups.getD .empty) }
  attempt (missing && (start.stops .syncRoot).isSome)
    (if start.stops .syncRoot = some .killed then .killed else .preMigrationCopy) id

/-- The loop of `create_tmp`: the first name drawn that is free. -/
def freeName (dir : Directory δ) (nonces : List (Vector UInt8 8)) : Option Bytes :=
  (nonces.map tmpName).find? fun name => (dir.get? name).isNone

/-- `fs::rename` within the backups directory: it replaces any entry but a directory. -/
def rename (tmp target : Bytes) (dir : Directory δ) : Option (Directory δ) :=
  match dir.get? tmp, (dir.get? target).map DirEntry.node with
  | none, _ | _, some .directory => none
  | some entry, _ => some ((dir.delete fun e => e.name = tmp).put { entry with name := target })

/-- The copy under its temporary name, flushed and renamed. -/
def writeCopy (old : Nat) (tmp : Bytes) : Prepare δ Unit := do
  step start .vacuumInto .preMigrationCopy fun d =>
    d.inBackups fun dir => dir.put ⟨tmp, .file (.copy d.db)⟩
  step start .flush .preMigrationCopy id
  let renamed := (← get).backups.bind (rename tmp (copyName old start.now))
  attempt renamed.isNone .preMigrationCopy id
  step start .rename .preMigrationCopy fun d => { d with backups := renamed }
  step start .syncDir .preMigrationCopy id

/-- The copies in a directory, with their times. -/
def copies (dir : Directory δ) : List (Nat × Bytes) :=
  dir.rows.filterMap fun e =>
    if e.node.isFile then (preMigrationTime e.name).map fun time => (time, e.name) else none

/-- The order of `copies.sort()`: by time, then by name. -/
def copyLe (a b : Nat × Bytes) : Bool := a.1 < b.1 || a.1 = b.1 && decide (a.2 ≤ b.2)

/-- Pre-migration copies kept after a new one is written. -/
def preMigrateKept : Nat := 2

/-- The copies that are too many, the oldest first. -/
def excessCopies (dir : Directory δ) : List (Nat × Bytes) :=
  (orderBy copyLe (copies dir)).take ((copies dir).length - preMigrateKept)

/-- The loop of `prune_pre_migration_copies` over the copies that are too many. -/
def removeCopies : List (Nat × Bytes) → Prepare δ Unit
  | [] => pure ()
  | (_, name) :: rest => do
    step start (.removeCopy name) .preMigrationCopy fun d =>
      d.inBackups fun dir => dir.delete fun e => e.name = name
    removeCopies rest

/-- `prune_pre_migration_copies`: the two latest copies are kept. -/
def prunePreMigrationCopies : Prepare δ Unit := do
  step start .readDir .preMigrationCopy id
  let excess := excessCopies ((← get).backups.getD .empty)
  removeCopies start excess
  attempt (!excess.isEmpty && (start.stops .syncPruned).isSome)
    (if start.stops .syncPruned = some .killed then .killed else .preMigrationCopy) id

/-- `pre_migration_copy`: a copy under a temporary name, renamed when it is complete. -/
def preMigrationCopy (old : Nat) : Prepare δ Unit := do
  ensureBackups start
  let tmp := freeName ((← get).backups.getD .empty) start.nonces
  -- with no free name among those drawn, the loop is still running when the process ends
  attempt tmp.isNone .killed id
  let tmp := tmp.getD []
  step start .createTmp .preMigrationCopy fun d => d.inBackups fun dir =>
    dir.put ⟨tmp, .file (.data [])⟩
  onErrorWith (writeCopy start old tmp) fun error d =>
    -- a killed process removes nothing
    if error = .killed || (start.stops .cleanup).isSome then d
    else d.inBackups fun dir => dir.delete fun e => e.name = tmp
  prunePreMigrationCopies start

/-- The transaction of `apply`: its result, which is returned after the foreign keys are on
again. -/
def transaction (migration : Migration δ) : Prepare δ (Except MigrateError Unit) := do
  attempt (start.stops (.transaction migration.version) = some .killed) .killed id
  modifyGet fun d =>
    if start.stops (.transaction migration.version) = some .fails then (.error .database, d)
    else
      match applyInTransaction S key migration start.now d.db with
      | .ok db => (.ok (), { d with db })
      | .error error => (.error error, d)

/-- `apply`: one migration, in a transaction with the foreign keys off. -/
def apply (migration : Migration δ) : Prepare δ Unit := do
  step start (.foreignKeysOff migration.version) .database id
  let result ← transaction S key start migration
  step start (.foreignKeysOn migration.version) .database id
  match result with
  | .ok () => pure ()
  | .error error => throw error

/-- The loop of `prepare` over the migrations. -/
def applyAll : List (Migration δ) → Prepare δ Unit
  | [] => pure ()
  | migration :: rest => do
    apply S key start migration
    applyAll rest

/-- What `prepare` does before any migration: the downgrade guard, the refusal of other databases,
the keycheck and the copy. It returns the version of the database. -/
def beforeMigrations : Prepare δ Nat := do
  step start .readVersion .database id
  let version := S.userVersion (← get).db
  let binary := newest migrations
  attempt (version > binary) (.downgrade version binary) id
  if version = 0 then
    step start .readSchema .database id
    attempt (S.hasSchema (← get).db) .notKohaku id
    return version
  else
    checkKeycheck S key start
    if version < binary then
      preMigrationCopy start version
      return version
    else return version

/-- `prepare`. -/
def prepare : Prepare δ Unit := do
  let version ← beforeMigrations S key migrations start
  applyAll S key start (migrations.filter fun m => m.version > version)

end Kohaku.Migrate
