import Kohaku.Auth.Credentials
import Kohaku.Auth.Reset

/-!
# Login and the account changes

The success work of the five handlers behind the credential check (`POST /admin/login` and the
re-authenticated account changes) and the transactions of the three signed-in handlers that need
no password: logout, `confirm_totp` and `end_other_sessions`.
-/

namespace Kohaku

open Sql

/-- The random values a transaction may draw. -/
structure Draws where
  token : Vector UInt8 32
  csrf : Vector UInt8 32
  device : Vector UInt8 32
  nonce : Vector UInt8 16
  codes : List (Vector UInt8 10)
  deriving DecidableEq

/-- The success work of a check, with what the handler moved into it. -/
inductive Work
  | login (device : Option Bytes)
  | changePassword (hash : Str)
  | startTotp (sessionId : Nat)
  | disableTotp
  | regenerateCodes
  deriving DecidableEq

/-- What the success work returns. -/
inductive Value
  | signedIn (session : Str) (device : Option Str)
  | done
  | nonce (nonce : Bytes)
  | codes (codes : List Str)
  deriving DecidableEq

/-- The audit actor of an account's own change. -/
def Account.actor (a : Account) : Actor := .user a.id a.role

/-- The mail about a changed password. -/
def passwordChangedMail (A : App) (userId : Nat) (now : Time) : NewMail :=
  let text := Mail.passwordChangedText A.mainOrigin now
  { kind := Mail.passwordChanged, recipient := .user userId, subject := text.subject
    body := text.body, placeholder := false }

/-- What setting a password does, in `change_password` and in `link_submit`: the new hash, every
session ended, device cookies forgotten, unused reset tokens stopped, and the mail. -/
def setPassword (A : App) (db : Db) (userId : Nat) (hash : Str) (now : Time) : Option Db :=
  let db := db.updateUser userId fun u => { u with passwordHash := some hash }
  let db := endAll db userId
  let db := Mail.useResetTokens db userId now
  enqueue A.addressParses db (passwordChangedMail A userId now) now

namespace Work

/-- `submit`: a login that already carried this account's device cookie keeps it. -/
def loginRun (A : App) (device : Option Bytes) (d : Draws) (db : Db) (account : Account)
    (now : Time) : Option (Value × Db) := do
  let db ← createSession A db account.id now d.token d.csrf
  if device.any fun hash => isKnownDevice db account.id hash now then
    return (.signedIn (tokenText A.base64 d.token) none, db)
  else
    let db ← addDevice A db account.id now d.device
    return (.signedIn (tokenText A.base64 d.token) (some (tokenText A.base64 d.device)), db)

/-- The work of `change_password`: the new hash, which ends every session, and the audit entry. -/
def changePasswordRun (A : App) (hash : Str) (db : Db) (account : Account) (now : Time) :
    Option (Value × Db) := do
  let db ← setPassword A db account.id hash now
  return (.done, db.audit account.actor .userPasswordChange (.user account.id) now)

/-- The new nonce is kept on the session until confirmed. -/
def startTotpRun (sessionId : Nat) (d : Draws) (db : Db) : Option (Value × Db) :=
  some (.nonce d.nonce.toList,
    { db with
      sessions := db.sessions.update (fun s => s.id = sessionId)
        fun s => { s with pendingTotpNonce := some d.nonce.toList } })

/-- The work of `disable_totp`: the enrollment, the recovery codes and the device cookies are gone.
-/
def disableTotpRun (db : Db) (account : Account) (now : Time) : Option (Value × Db) :=
  let db := db.updateUser account.id fun u => { u with totpNonce := none, totpLastStep := none }
  let db := { db with
    recoveryCodes := db.recoveryCodes.delete fun r => r.userId = account.id
    knownDevices := db.knownDevices.delete fun d => d.userId = account.id }
  some (.done, db.audit account.actor .userTotpDisable (.user account.id) now)

/-- The work of `regenerate_codes`: ten new codes in place of the account's old ones. -/
def regenerateCodesRun (A : App) (d : Draws) (db : Db) (account : Account) (now : Time) :
    Option (Value × Db) := do
  let (codes, db) ← Recovery.replace A db account.id d.codes
  return (.codes codes, db.audit account.actor .userRecoveryCodes (.user account.id) now)

/-- What the deciding transaction does after a check has passed. -/
def run (A : App) (d : Draws) (db : Db) (account : Account) (now : Time) :
    Work → Option (Value × Db)
  | login device => loginRun A device d db account now
  | changePassword hash => changePasswordRun A hash db account now
  | startTotp sessionId => startTotpRun sessionId d db
  | disableTotp => disableTotpRun db account now
  | regenerateCodes => regenerateCodesRun A d db account now

end Work

/-! ## Transactions without a password -/

/-- What confirming an enrollment found. -/
inductive Confirmed
  | notStarted
  | wrongCode (nonce : Bytes)
  | enrolled (codes : List Str)
  deriving DecidableEq

/-- `confirm_totp`: enrolls the nonce pending on the session once a code for it is typed back;
replaces recovery codes, ends other sessions, forgets device cookies. -/
def confirmTotp (A : App) (db : Db) (user : SessionUser) (code : Str) (now : Time) (d : Draws) :
    Option (Confirmed × Db) :=
  match (db.sessions.get? user.sessionId).bind SessionRow.pendingTotpNonce with
  | none => some (.notStarted, db)
  | some nonce =>
    let seed := deriveSeed A.toCrypto A.secret user.userId nonce
    match matchingStep A.toCrypto seed (trim code) now with
    | none => some (.wrongCode nonce, db)
    | some step => do
      let db := db.updateUser user.userId fun u =>
        { u with totpNonce := some nonce, totpLastStep := some step }
      let (codes, db) ← Recovery.replace A db user.userId d.codes
      let db := { db with
        sessions := (db.sessions.delete fun s =>
            s.userId = user.userId && s.id ≠ user.sessionId).update
          (fun s => s.id = user.sessionId) fun s => { s with pendingTotpNonce := none }
        knownDevices := db.knownDevices.delete fun d => d.userId = user.userId }
      return (.enrolled codes,
        db.audit (.user user.userId user.role) .userTotpEnable (.user user.userId) now)

/-- `end_other_sessions`. -/
def endOtherSessions (db : Db) (user : SessionUser) (now : Time) : Db :=
  { db with
    sessions := db.sessions.delete fun s =>
      s.userId = user.userId && s.id ≠ user.sessionId }.audit
    (.user user.userId user.role) .userSessionsEnd (.user user.userId) now

/-- `logout`. -/
def logout (db : Db) (sessionId : Nat) : Db :=
  { db with sessions := db.sessions.delete fun s => s.id = sessionId }

end Kohaku
