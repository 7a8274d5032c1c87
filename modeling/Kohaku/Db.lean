import Kohaku.Basic
import Kohaku.Sql.Table

/-!
# The database

The tables of `migrations/0001_foundation.sql` and `0002_admin_auth.sql` that sign-in, password
reset and the outbox read or write. Columns that no modelled statement reads (`created_at` of
`users`, `email` and `totp_nonce` of `tokens`) are left out, and so is the audit log's row id.
-/

namespace Kohaku

open Sql

/-! ## Accounts -/

/-- `Role`. -/
inductive Role
  | admin
  | maintainer
  deriving DecidableEq, Repr

/-- Whether the role must sign in with a second factor. -/
def Role.requiresTwoFactor : Role → Bool
  | .admin => true
  | .maintainer => false

/-- An account as the check reads it (`ACCOUNT_COLUMNS`). -/
structure Account where
  id : Nat
  email : Str
  role : Role
  disabled : Bool
  passwordHash : Option Str
  totpNonce : Option Bytes
  lockedUntil : Option Time
  deviceFailures : Int
  deviceWindowStart : Option Time
  deriving DecidableEq

/-- A row of `users`; `toAccount` is `account_row`. -/
structure UserRow extends Account where
  totpLastStep : Option Int
  failedLogins : Int
  lockoutMailedAt : Option Time
  deriving DecidableEq

/-- The primary key. -/
abbrev UserRow.key (u : UserRow) : Nat := u.id

theorem UserRow.id_withPassword (hash : Str) (u : UserRow) :
    { u with passwordHash := some hash }.id = u.id := rfl

/-! ## Sessions, device cookies, recovery codes and tokens -/

/-- A row of `sessions`. -/
structure SessionRow where
  id : Nat
  tokenHash : Bytes
  userId : Nat
  csrfToken : Bytes
  createdAt : Time
  lastSeen : Time
  pendingTotpNonce : Option Bytes
  deriving DecidableEq

/-- A row of `known_devices`. -/
structure DeviceRow where
  id : Nat
  userId : Nat
  tokenHash : Bytes
  createdAt : Time
  deriving DecidableEq

/-- A row of `recovery_codes`. -/
structure RecoveryRow where
  userId : Nat
  codeHash : Bytes
  deriving DecidableEq

/-- The primary key, which is the whole row. -/
def RecoveryRow.key (r : RecoveryRow) : Nat × Bytes := (r.userId, r.codeHash)

/-- The `purpose` of a row of `tokens`. -/
inductive TokenPurpose
  | reset
  | setup
  | invite
  deriving DecidableEq, Repr

/-- A row of `tokens`. -/
structure TokenRow where
  id : Nat
  purpose : TokenPurpose
  tokenHash : Bytes
  userId : Option Nat
  expiresAt : Time
  usedAt : Option Time
  deriving DecidableEq

theorem TokenRow.id_used (now : Time) (t : TokenRow) : { t with usedAt := some now }.id = t.id :=
  rfl

/-! ## Outbox and audit log -/

/-- The order in which due mails are attempted. -/
inductive Priority
  | security
  | normal
  deriving DecidableEq, Repr

/-- How a mail ended. -/
inductive RowOutcome
  | sent
  | givenUp
  deriving DecidableEq, Repr

/-- A row of `outbox`. -/
structure OutboxRow where
  id : Nat
  kind : Str
  userId : Option Nat
  address : Option Str
  subject : Str
  body : Str
  priority : Priority
  token : Bool
  placeholder : Bool
  attempts : Nat
  nextAttemptAt : Time
  queuedAt : Time
  expiresAt : Time
  outcome : Option RowOutcome
  deriving DecidableEq

theorem OutboxRow.id_tried (row r : OutboxRow) :
    { r with attempts := row.attempts + 1 }.id = r.id := rfl

/-- Who did what an entry records. -/
inductive Actor
  | cli
  | user (id : Nat) (role : Role)
  deriving DecidableEq, Repr

/-- What an entry records. -/
inductive Action
  | instanceRestore
  | userUnlock
  | userResetLink
  | userPasswordChange
  | userPasswordReset
  | userTotpEnable
  | userTotpDisable
  | userRecoveryCodes
  | userSessionsEnd
  | projectCreate
  | projectUpdate
  | projectDelete
  deriving DecidableEq, Repr

/-- What it was done to. -/
inductive Target
  | theInstance
  | user (id : Nat)
  | project (id : Nat)
  deriving DecidableEq, Repr

/-- A row of `audit_log`. -/
structure AuditRow where
  actor : Actor
  action : Action
  target : Target
  time : Time
  deriving DecidableEq

/-! ## The database -/

/-- The tables that the modelled functions read and write. -/
structure Db where
  users : Table UserRow UserRow.key
  sessions : Table SessionRow SessionRow.id
  knownDevices : Table DeviceRow DeviceRow.id
  recoveryCodes : Table RecoveryRow RecoveryRow.key
  tokens : AutoTable TokenRow TokenRow.id
  outbox : AutoTable OutboxRow OutboxRow.id
  auditLog : List AuditRow

namespace Db

/-- The account's row. -/
def user? (db : Db) (id : Nat) : Option UserRow := db.users.get? id

/-- `audit`: one entry in the caller's transaction. -/
def audit (db : Db) (actor : Actor) (action : Action) (target : Target) (now : Time) : Db :=
  { db with auditLog := db.auditLog ++ [⟨actor, action, target, now⟩] }

/-- `UPDATE users SET f WHERE id = ?`. -/
def updateUser (db : Db) (id : Nat) (f : UserRow → UserRow)
    (hf : ∀ u, (f u).id = u.id := by intro _; rfl) : Db :=
  { db with users := db.users.update (fun u => u.id = id) f hf }

variable {db : Db} {id i : Nat} {f : UserRow → UserRow} {hf : ∀ u, (f u).id = u.id}

theorem id_of_user? {row : UserRow} (h : db.user? id = some row) : row.id = id :=
  Table.key_of_get? (t := db.users) h

theorem mem_of_user? {row : UserRow} (h : db.user? id = some row) : row ∈ db.users :=
  Table.mem_of_get? h

theorem user?_of_mem {row : UserRow} (h : row ∈ db.users) : db.user? row.id = some row :=
  Table.get?_of_mem (t := db.users) h

@[simp] theorem sessions_updateUser : (db.updateUser id f hf).sessions = db.sessions := rfl
@[simp] theorem knownDevices_updateUser :
    (db.updateUser id f hf).knownDevices = db.knownDevices := rfl
@[simp] theorem recoveryCodes_updateUser :
    (db.updateUser id f hf).recoveryCodes = db.recoveryCodes := rfl
@[simp] theorem tokens_updateUser : (db.updateUser id f hf).tokens = db.tokens := rfl
@[simp] theorem outbox_updateUser : (db.updateUser id f hf).outbox = db.outbox := rfl

theorem user?_updateUser_self : (db.updateUser id f hf).user? id = (db.user? id).map f := by
  simp only [user?, updateUser, Table.get?_update]
  cases h : db.users.get? id with
  | none => rfl
  | some row => simp [id_of_user? h]

theorem user?_updateUser_of_ne (h : i ≠ id) : (db.updateUser id f hf).user? i = db.user? i := by
  simp only [user?, updateUser, Table.get?_update]
  cases hr : db.users.get? i with
  | none => rfl
  | some row => simp [id_of_user? hr, h]

/-- A conditional update of one account is unconditional when the account's row meets the
condition. -/
theorem updateUser_of_user? {u : UserRow} {p : UserRow → Bool} (hu : db.user? id = some u)
    (hp : p u = true) :
    { db with users := db.users.update (fun u => u.id = id && p u) f hf } =
      db.updateUser id f hf := by
  have h : ∀ a ∈ db.users, (decide (a.id = id) && p a) = decide (a.id = id) := by
    intro a ha
    by_cases hid : a.id = id
    · subst hid
      rw [user?_of_mem ha] at hu
      cases hu
      simp [hp]
    · simp [hid]
  simp only [updateUser, Table.update_congr h]

end Db

end Kohaku
