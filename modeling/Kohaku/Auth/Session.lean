import Kohaku.Db
import Kohaku.Keys

/-!
# Sessions and device cookies

The transactions of `auth/session.rs`. A new session or device row is refused when its token
hash is already stored (`UNIQUE`), which rolls the caller's transaction back.
-/

namespace Kohaku

open Sql

/-- A session ends this long after its last recorded use, -/
def idleSeconds : Int := 12 * 60 * 60
/-- and at the latest this long after it began. -/
def absoluteSeconds : Int := 7 * 24 * 60 * 60
/-- Use is recorded at most this often. -/
def touchSeconds : Int := 5 * 60

/-- `DEVICE_SECONDS`, a year. -/
def deviceSeconds : Int := 365 * 24 * 60 * 60

/-- `DEVICES_KEPT`, for each account. -/
def devicesKept : Nat := 10

/-- The signed-in account of a request. -/
structure SessionUser where
  sessionId : Nat
  userId : Nat
  role : Role
  email : Str
  totpEnrolled : Bool
  csrf : Bytes
  deriving DecidableEq

/-- The read of `current`: the session of a token hash, if valid at `now`, and its `last_seen`. -/
def currentRead (db : Db) (hash : Bytes) (now : Time) : Option (SessionUser × Time) := do
  let s ← db.sessions.find? fun s =>
    s.tokenHash = hash && s.lastSeen > now - idleSeconds && s.createdAt > now - absoluteSeconds
  let u ← db.user? s.userId
  if u.passwordHash.isSome && !u.disabled then
    return ({ sessionId := s.id, userId := s.userId, role := u.role, email := u.email
              totpEnrolled := u.totpNonce.isSome, csrf := s.csrfToken }, s.lastSeen)
  else none

/-- The write of `current`: `last_seen` moves forward only. -/
def touch (db : Db) (id : Nat) (now : Time) : Db :=
  { db with
    sessions := db.sessions.update (fun s => s.id = id && s.lastSeen < now)
      fun s => { s with lastSeen := now } }

/-- The row of a new session. -/
abbrev newSession (A : App) (userId : Nat) (now : Time) (token csrf : Vector UInt8 32) (id : Nat) :
    SessionRow where
  id := id
  tokenHash := A.sha256 (asBytes (tokenText A.base64 token))
  userId := userId
  csrfToken := csrf.toList
  createdAt := now
  lastSeen := now
  pendingTotpNonce := none

/-- `create`: a new session of `userId` with the token and CSRF bytes drawn. -/
def createSession (A : App) (db : Db) (userId : Nat) (now : Time) (token csrf : Vector UInt8 32) :
    Option Db :=
  if db.sessions.any fun s => s.tokenHash = A.sha256 (asBytes (tokenText A.base64 token)) then none
  else some { db with sessions := db.sessions.insertNew (newSession A userId now token csrf) }

/-- `ORDER BY created_at DESC, id DESC`. -/
def newerFirst (a b : DeviceRow) : Bool :=
  b.createdAt < a.createdAt || b.createdAt = a.createdAt && b.id ≤ a.id

/-- The ids that `add_device` keeps: the ten newest of the account. -/
def keptDevices (t : Table DeviceRow DeviceRow.id) (userId : Nat) : List Nat :=
  ((orderBy newerFirst (t.rows.filter fun d => d.userId = userId)).take devicesKept).map
    DeviceRow.id

/-- `DELETE … WHERE user_id = ? AND id NOT IN (…)`. -/
def evictDevices (t : Table DeviceRow DeviceRow.id) (userId : Nat) :
    Table DeviceRow DeviceRow.id :=
  t.delete fun d => d.userId = userId && !(keptDevices t userId).contains d.id

/-- The row of a new device cookie. -/
abbrev newDevice (A : App) (userId : Nat) (now : Time) (token : Vector UInt8 32) (id : Nat) :
    DeviceRow where
  id := id
  userId := userId
  tokenHash := A.sha256 (asBytes (tokenText A.base64 token))
  createdAt := now

theorem id_newDevice (A : App) (userId : Nat) (now : Time) (token : Vector UInt8 32) (id : Nat) :
    (newDevice A userId now token id).id = id := rfl

/-- A new device cookie of `userId` with the token bytes drawn, evicting the oldest beyond ten. -/
def addDevice (A : App) (db : Db) (userId : Nat) (now : Time) (token : Vector UInt8 32) :
    Option Db :=
  if db.knownDevices.any fun d => d.tokenHash = A.sha256 (asBytes (tokenText A.base64 token)) then
    none
  else
    some { db with
      knownDevices :=
        evictDevices (db.knownDevices.insertNew (newDevice A userId now token)) userId }

/-- Whether `hash` is a device cookie of `userId` that has not expired at `now`. -/
def isKnownDevice (db : Db) (userId : Nat) (hash : Bytes) (now : Time) : Bool :=
  db.knownDevices.any fun d =>
    d.userId = userId && d.tokenHash = hash && d.createdAt > now - deviceSeconds

/-- Ends every session and forgets every device cookie of `userId`. -/
def endAll (db : Db) (userId : Nat) : Db :=
  { db with
    sessions := db.sessions.delete fun s => s.userId = userId
    knownDevices := db.knownDevices.delete fun d => d.userId = userId }

variable {A : App} {db db' : Db} {userId : Nat} {now : Time}

theorem createSession_eq_some {token csrf : Vector UInt8 32}
    (h : createSession A db userId now token csrf = some db') :
    db' = { db with sessions := db.sessions.insertNew (newSession A userId now token csrf) } := by
  unfold createSession at h
  split at h
  · cases h
  · cases h; rfl

theorem addDevice_eq_some {token : Vector UInt8 32}
    (h : addDevice A db userId now token = some db') : db' = { db with
      knownDevices :=
        evictDevices (db.knownDevices.insertNew (newDevice A userId now token)) userId } := by
  unfold addDevice at h
  split at h
  · cases h
  · cases h; rfl

/-- A session that is read is a row with the token hash presented, of an enabled account with a
password; the flag says whether the account is enrolled. -/
theorem currentRead_spec {hash : Bytes} {user : SessionUser} {lastSeen : Time}
    (h : currentRead db hash now = some (user, lastSeen)) :
    ∃ s ∈ db.sessions, ∃ u, db.user? s.userId = some u ∧ s.id = user.sessionId ∧
      s.userId = user.userId ∧ s.tokenHash = hash ∧ user.totpEnrolled = u.totpNonce.isSome := by
  simp only [currentRead, Option.bind_eq_bind, Option.bind_eq_some_iff] at h
  obtain ⟨s, hs, u, hu, h⟩ := h
  split at h
  · cases h
    have hp := Table.of_find? hs
    simp only [Bool.and_eq_true, decide_eq_true_eq] at hp
    exact ⟨s, Table.mem_of_find? hs, u, hu, rfl, rfl, hp.1.1, rfl⟩
  · cases h

end Kohaku
