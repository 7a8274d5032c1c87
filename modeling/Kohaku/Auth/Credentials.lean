import Kohaku.Auth.Mail
import Kohaku.Auth.Password
import Kohaku.Auth.Recovery
import Kohaku.Auth.Session
import Kohaku.Auth.Totp

/-!
# The credential check

The one check behind login and re-authentication. `checkRead` is the part before the write
transaction: the account as a reader sees it, the known-device flag and the password comparison
made outside any transaction. `decide` is the transaction that decides the lock, the code and
the counters and runs the success work. Between the two anything may commit.
-/

namespace Kohaku

open Sql

/-- Failures without a device cookie that lock the account, -/
def lockAfter : Int := 10
/-- for this long. -/
def lockSeconds : Int := 15 * 60
/-- Failures with a device cookie count in a window this long from the first, -/
def deviceWindowSeconds : Int := 60 * 60
/-- and past this many, such attempts fail until the window ends. -/
def deviceFailuresMax : Int := 20
/-- At most one lockout mail per account in this time. -/
def lockoutMailSeconds : Int := 24 * 60 * 60
/-- Longest code field. -/
def codeMax : Nat := 32

/-- Which account an attempt is for: a normalized email or the signed-in account. -/
inductive Lookup
  | email (email : Str)
  | id (id : Nat)
  deriving DecidableEq

/-- One password check, as submitted; `device` is the hash of a well-formed device cookie. -/
structure Attempt where
  account : Lookup
  password : Str
  code : Str
  device : Option Bytes
  deriving DecidableEq

namespace Account

/-- The device window that covers `now`. -/
def windowOpen (a : Account) (now : Time) : Bool :=
  a.deviceWindowStart.any fun start => start + deviceWindowSeconds > now

/-- The lock that covers `now`. -/
def locked (a : Account) (now : Time) : Bool := a.lockedUntil.any fun until_ => until_ > now

/-- Whether this request may not sign in at `now` whatever it submits. -/
def blocked (a : Account) (knownDevice : Bool) (now : Time) : Bool :=
  if knownDevice then a.windowOpen now && a.deviceFailures ≥ deviceFailuresMax
  else a.locked now

/-- The hash to check the password against, if this request may try it. -/
def usableHash (a : Account) (knownDevice : Bool) (now : Time) : Option Str :=
  a.passwordHash.filter fun _ => !a.disabled && !a.blocked knownDevice now

end Account

/-- How a check ended. The answer `Busy`, given before any transaction, is a request that ends
without one. -/
inductive Outcome (α : Type)
  | success (value : α)
  | failure
  | twoFactorRequired
  deriving DecidableEq

/-- What was checked outside the transaction. -/
structure Verified where
  /-- The hash the password matched, `none` when it did not. -/
  hash : Option Str
  knownDevice : Bool
  code : Str
  deriving DecidableEq

namespace Credentials

/-- `find`: the account of an email or an id. -/
def find (db : Db) : Lookup → Option Account
  | .email email => (db.users.find? fun u => u.email = email).map UserRow.toAccount
  | .id id => (db.user? id).map UserRow.toAccount

/-- `check` up to its transaction; `none` when there is no such account, which ends the check in
`Failure`. -/
def checkRead (A : App) (db : Db) (attempt : Attempt) (now : Time) : Option (Nat × Verified) := do
  let account ← find db attempt.account
  let knownDevice := attempt.device.any fun hash => isKnownDevice db account.id hash now
  let oversize := attempt.password.length > passwordMax || attempt.code.length > codeMax
  let target := (account.usableHash knownDevice now).filter fun _ => !oversize
  -- an oversize password is checked as empty
  let input := if oversize then [] else attempt.password
  let matched := A.verifyPassword input (target.getD A.dummyHash) && target.isSome
  return (account.id, { hash := target.filter fun _ => matched, knownDevice, code := attempt.code })

/-- A TOTP code of a later step than the last accepted one, recorded by one conditional write, or
an unused recovery code, deleted by one. -/
def codeAccepted (A : App) (db : Db) (userId : Nat) (seed : Bytes) (code : Str) (now : Time) :
    Bool × Db :=
  let code := trimMatches isAsciiWhitespace code
  if isCode code then
    match matchingStep A.toCrypto seed code now with
    | none => (false, db)
    | some step =>
      let p := fun u : UserRow => u.id = userId && u.totpLastStep.all fun last => last < step
      (db.users.any p,
        { db with users := db.users.update p fun u => { u with totpLastStep := some step } })
  else
    match Recovery.normalize code with
    | some code => Recovery.consume A db userId code
    | none => (false, db)

/-- The row after a failure with a known device. -/
def countDevice (now : Time) (u : UserRow) : UserRow :=
  if u.deviceWindowStart.all fun start => start + deviceWindowSeconds ≤ now then
    { u with deviceFailures := 1, deviceWindowStart := some now }
  else { u with deviceFailures := u.deviceFailures + 1 }

/-- The row after a failure without one. -/
def countLogin (now : Time) (u : UserRow) : UserRow :=
  if u.failedLogins + 1 ≥ lockAfter then
    { u with
      failedLogins := 0
      lockedUntil := some (now + lockSeconds)
      lockoutMailedAt :=
        if u.lockoutMailedAt.all fun mailed => mailed ≤ now - lockoutMailSeconds then some now
        else u.lockoutMailedAt }
  else { u with failedLogins := u.failedLogins + 1 }

@[simp] theorem countDevice_id (now : Time) (u : UserRow) : (countDevice now u).id = u.id := by
  unfold countDevice
  split <;> rfl

@[simp] theorem countLogin_id (now : Time) (u : UserRow) : (countLogin now u).id = u.id := by
  unfold countLogin
  split <;> rfl

/-- Whether this failure starts a lock that is mailed. `RETURNING` reads the row as updated. -/
def mailsLockout (now : Time) (u : UserRow) : Bool :=
  (countLogin now u).lockedUntil = some (now + lockSeconds) &&
    (countLogin now u).lockoutMailedAt = some now

/-- The lockout mail. -/
def lockoutMail (A : App) (userId : Nat) (now : Time) : NewMail :=
  let text := Mail.lockoutText A.mainOrigin now
  { kind := Mail.lockout, recipient := .user userId, subject := text.subject, body := text.body
    placeholder := false }

/-- Counts one failure: toward the lock without a device cookie, in the device window with one;
nothing while the account is blocked for this request. -/
def countFailure (A : App) (db : Db) (id : Nat) (knownDevice : Bool) (now : Time) : Option Db :=
  if knownDevice then
    let p := fun u : UserRow =>
      u.id = id && !(u.windowOpen now && u.deviceFailures ≥ deviceFailuresMax)
    some { db with users := db.users.update p (countDevice now) (countDevice_id now) }
  else
    let p := fun u : UserRow => u.id = id && !u.locked now
    let started := (db.users.find? p).any (mailsLockout now)
    let db := { db with users := db.users.update p (countLogin now) (countLogin_id now) }
    if started then enqueue A.addressParses db (lockoutMail A id now) now
    else some db

/-- `UPDATE users SET failed_logins = 0, device_failures = 0, device_window_start = NULL`. -/
def resetCounters (db : Db) (id : Nat) : Db :=
  db.updateUser id fun u =>
    { u with failedLogins := 0, deviceFailures := 0, deviceWindowStart := none }

/-- The password must match the hash stored now, not one changed meanwhile. -/
def passwordOk (account : Account) (verified : Verified) : Bool :=
  verified.hash.isSome && verified.hash = account.passwordHash && !account.disabled

/-- The second factor; `none` when the role requires one and none is enrolled. -/
def secondFactor (A : App) (db : Db) (account : Account) (code : Str) (now : Time) :
    Option (Bool × Db) :=
  match account.totpNonce with
  | none => if account.role.requiresTwoFactor then none else some (true, db)
  | some nonce =>
    some (codeAccepted A db account.id (deriveSeed A.toCrypto A.secret account.id nonce) code now)

/-- The deciding transaction; `none` when it is rolled back. -/
def decide {α : Type} (A : App) (db : Db) (id : Nat) (verified : Verified) (now : Time)
    (success : Db → Account → Time → Option (α × Db)) : Option (Outcome α × Db) :=
  match find db (.id id) with
  | none => some (.failure, db)
  | some account =>
    let knownDevice := verified.knownDevice
    if account.blocked knownDevice now then some (.failure, db)
    else if !passwordOk account verified then do
      let db ← countFailure A db account.id knownDevice now
      return (.failure, db)
    else
      match secondFactor A db account verified.code now with
      | none => some (.twoFactorRequired, db)
      | some (false, db) => do
        let db ← countFailure A db account.id knownDevice now
        return (.failure, db)
      | some (true, db) => do
        let (value, db) ← success (resetCounters db account.id) account now
        return (.success value, db)

/-! ## What the check reads -/

variable {A : App} {db db' : Db} {id : Nat} {now : Time}

theorem find_id {account : Account} :
    find db (.id id) = some account ↔ ∃ u, db.user? id = some u ∧ u.toAccount = account := by
  simp [find]

/-- The account a lookup finds is a row of the table. -/
theorem mem_of_find {l : Lookup} {account : Account} (h : find db l = some account) :
    ∃ u ∈ db.users, u.toAccount = account := by
  cases l with
  | email email =>
    simp only [find, Option.map_eq_some_iff] at h
    obtain ⟨u, hu, rfl⟩ := h
    exact ⟨u, Table.mem_of_find? hu, rfl⟩
  | id id =>
    obtain ⟨u, hu, rfl⟩ := find_id.mp h
    exact ⟨u, Db.mem_of_user? hu, rfl⟩

/-- A hash that was verified is the account's, the account was neither disabled nor blocked, and
the submitted password matches it. -/
theorem checkRead_spec {attempt : Attempt} {v : Verified}
    (h : checkRead A db attempt now = some (id, v)) :
    ∃ u, db.user? id = some u ∧ find db attempt.account = some u.toAccount ∧
      v.code = attempt.code ∧
      v.knownDevice = attempt.device.any (fun hash => isKnownDevice db id hash now) ∧
      ∀ hash, v.hash = some hash →
        u.passwordHash = some hash ∧ u.disabled = false ∧ u.blocked v.knownDevice now = false ∧
          A.verifyPassword attempt.password hash = true := by
  simp only [checkRead, Option.bind_eq_bind, Option.bind_eq_some_iff, Option.pure_def,
    Option.some.injEq, Prod.mk.injEq] at h
  obtain ⟨account, hf, rfl, rfl⟩ := h
  obtain ⟨u, hu, rfl⟩ := mem_of_find hf
  refine ⟨u, Db.user?_of_mem hu, hf, rfl, rfl, ?_⟩
  intro hash hh
  simp only [Option.filter_eq_some_iff, Account.usableHash, Bool.and_eq_true, Bool.not_eq_true']
    at hh
  obtain ⟨⟨⟨hp, hd, hb⟩, ho⟩, hm, -⟩ := hh
  refine ⟨hp, hd, hb, ?_⟩
  simpa [ho, Account.usableHash, hp, hd, hb, Option.filter] using hm

/-! ## What the transaction does -/

/-- The account's row after a counted failure. -/
def counted (knownDevice : Bool) (now : Time) (u : UserRow) : UserRow :=
  if knownDevice then countDevice now u else countLogin now u

@[simp] theorem counted_id (k : Bool) (u : UserRow) : (counted k now u).id = u.id := by
  unfold counted
  split <;> simp

/-- A refused code changes nothing. -/
theorem codeAccepted_false {seed : Bytes} {code : Str}
    (h : codeAccepted A db id seed code now = (false, db')) : db' = db := by
  simp only [codeAccepted] at h
  split at h
  · split at h
    · cases h; rfl
    · obtain ⟨hany, rfl⟩ := Prod.mk.inj h
      rw [Table.update_eq_self (Table.any_eq_false.mp hany)]
  · split at h
    · exact Recovery.consume_false h
    · cases h; rfl

/-- What an accepted second factor is and does: a code of a step after the last one, which is
recorded, or a stored recovery code, which is deleted. -/
inductive Accepted (A : App) (db : Db) (id : Nat) (seed : Bytes) (code : Str) (now : Time) :
    Db → Prop
  | totp : db.user? id = some u →
    matchingStep A.toCrypto seed (trimMatches isAsciiWhitespace code) now = some step →
    (∀ last, u.totpLastStep = some last → last < step) →
    Accepted A db id seed code now (db.updateUser id fun u => { u with totpLastStep := some step })
  | recovery : isCode (trimMatches isAsciiWhitespace code) = false →
    Recovery.normalize (trimMatches isAsciiWhitespace code) = some c →
    Recovery.row A id c ∈ db.recoveryCodes →
    Accepted A db id seed code now
      { db with recoveryCodes := db.recoveryCodes.delete fun r => r = Recovery.row A id c }

theorem codeAccepted_true {seed : Bytes} {code : Str}
    (h : codeAccepted A db id seed code now = (true, db')) :
    Accepted A db id seed code now db' := by
  simp only [codeAccepted] at h
  split at h
  · split at h
    · cases h
    · rename_i step hstep
      obtain ⟨hany, rfl⟩ := Prod.mk.inj h
      obtain ⟨u, hu, hp⟩ := Table.any_eq_true.mp hany
      rw [Bool.and_eq_true, decide_eq_true_eq] at hp
      obtain ⟨rfl, hlast⟩ := hp
      have hu' := Db.user?_of_mem hu
      rw [Db.updateUser_of_user?
        (p := fun u => u.totpLastStep.all fun last => last < step) hu' hlast]
      refine .totp hu' hstep fun last hl => ?_
      simpa [hl] using hlast
  · rename_i hcode
    split at h
    · rename_i c hc
      obtain ⟨hmem, rfl⟩ := Recovery.consume_true h
      exact .recovery (Bool.eq_false_iff.mpr hcode) hc hmem
    · cases h

/-- The database after a counted failure of the account with row `u`. -/
def afterFailure (A : App) (db : Db) (u : UserRow) (knownDevice : Bool) (now : Time) : Db :=
  { db.updateUser u.id (counted knownDevice now) (counted_id knownDevice) with
    outbox :=
      if !knownDevice && mailsLockout now u then
        db.outbox.insertNew ((lockoutMail A u.id now).row now (some u.id) none)
      else db.outbox }

/-- On an account that is not blocked `count_failure` counts, and cannot fail. -/
theorem countFailure_eq {u : UserRow} {k : Bool} (hu : db.user? id = some u)
    (hb : u.blocked k now = false) :
    countFailure A db id k now = some (afterFailure A db u k now) := by
  obtain rfl := Db.id_of_user? hu
  cases k with
  | true =>
    have hp : (!(u.windowOpen now && Decidable.decide (u.deviceFailures ≥ deviceFailuresMax))) =
        true := by
      simpa only [Account.blocked, if_true, Bool.not_eq_true'] using hb
    simp only [countFailure, if_true]
    rw [Db.updateUser_of_user?
      (p := fun u => !(u.windowOpen now && Decidable.decide (u.deviceFailures ≥ deviceFailuresMax)))
      hu hp]
    rfl
  | false =>
    have hp : (!u.locked now) = true := by simpa [Account.blocked] using hb
    have hfind : (db.users.find? fun r => Decidable.decide (r.id = u.id) && !r.locked now) =
        some u := by
      cases hf : db.users.find? fun r => Decidable.decide (r.id = u.id) && !r.locked now with
      | none => simpa [hp] using Table.find?_eq_none.mp hf u (Db.mem_of_user? hu)
      | some r =>
        have hr := Table.of_find? hf
        rw [Bool.and_eq_true, decide_eq_true_eq] at hr
        rw [Table.eq_of_key_eq (Table.mem_of_find? hf) (Db.mem_of_user? hu) hr.1]
    simp only [countFailure, Bool.false_eq_true, if_false]
    rw [hfind, Db.updateUser_of_user? (p := fun u => !u.locked now) hu hp, Option.any_some]
    cases hm : mailsLockout now u with
    | false =>
      simp only [afterFailure, hm, Bool.and_false, Bool.false_eq_true, if_false]
      rfl
    | true =>
      simp only [afterFailure, hm, Bool.not_false, Bool.and_true, if_true]
      rfl

/-- The second factor was accepted or is not needed. -/
inductive SecondFactor (A : App) (db : Db) (u : UserRow) (code : Str) (now : Time) : Db → Prop
  | notEnrolled : u.totpNonce = none → u.role.requiresTwoFactor = false →
    SecondFactor A db u code now db
  | enrolled : u.totpNonce = some nonce →
    Accepted A db u.id (deriveSeed A.toCrypto A.secret u.id nonce) code now db₁ →
    SecondFactor A db u code now db₁

/-- Every way the deciding transaction can end. -/
inductive Decided {α : Type} (A : App) (db : Db) (id : Nat) (v : Verified) (now : Time)
    (success : Db → Account → Time → Option (α × Db)) : Outcome α → Db → Prop
  | unknown : db.user? id = none → Decided A db id v now success .failure db
  | blocked : db.user? id = some u → u.blocked v.knownDevice now = true →
    Decided A db id v now success .failure db
  | failed : db.user? id = some u → u.blocked v.knownDevice now = false →
    Decided A db id v now success .failure (afterFailure A db u v.knownDevice now)
  | twoFactorRequired : db.user? id = some u → u.blocked v.knownDevice now = false →
    passwordOk u.toAccount v = true → u.totpNonce = none → u.role.requiresTwoFactor = true →
    Decided A db id v now success .twoFactorRequired db
  | success : db.user? id = some u → u.blocked v.knownDevice now = false →
    passwordOk u.toAccount v = true → SecondFactor A db u v.code now db₁ →
    success (resetCounters db₁ id) u.toAccount now = some (value, db₂) →
    Decided A db id v now success (.success value) db₂

variable {α : Type} {v : Verified} {success : Db → Account → Time → Option (α × Db)}

theorem decide_unknown (hu : db.user? id = none) :
    decide A db id v now success = some (.failure, db) := by
  have hf : find db (.id id) = none := by simp [find, hu]
  simp only [decide, hf]

theorem decide_blocked {u : UserRow} (hu : db.user? id = some u)
    (hb : u.blocked v.knownDevice now = true) :
    decide A db id v now success = some (.failure, db) := by
  have hf : find db (.id id) = some u.toAccount := by simp [find, hu]
  simp only [decide, hf, hb, if_true]

/-- The deciding transaction on an account that is not blocked for the request. -/
theorem decide_unblocked {u : UserRow} (hu : db.user? id = some u)
    (hb : u.blocked v.knownDevice now = false) :
    decide A db id v now success =
      if passwordOk u.toAccount v = false then
        some (.failure, afterFailure A db u v.knownDevice now)
      else
        match secondFactor A db u.toAccount v.code now with
        | none => some (.twoFactorRequired, db)
        | some (false, _) => some (.failure, afterFailure A db u v.knownDevice now)
        | some (true, db₁) =>
          (success (resetCounters db₁ id) u.toAccount now).map fun x => (.success x.1, x.2) := by
  have hf : find db (.id id) = some u.toAccount := by simp [find, hu]
  obtain rfl := Db.id_of_user? hu
  simp only [decide, hf, hb, Bool.false_eq_true, if_false, Bool.not_eq_true']
  split
  · rw [countFailure_eq hu hb]
    rfl
  · cases hs : secondFactor A db u.toAccount v.code now with
    | none => rfl
    | some x =>
      obtain ⟨ok, db₁⟩ := x
      cases ok with
      | true =>
        dsimp only
        cases success (resetCounters db₁ u.id) u.toAccount now <;> rfl
      | false =>
        -- a refused code has changed nothing
        have hdb : db₁ = db := by
          unfold secondFactor at hs
          split at hs
          · split at hs <;> cases hs
          · exact codeAccepted_false (Option.some.inj hs)
        dsimp only
        rw [hdb, countFailure_eq hu hb]
        rfl

theorem decide_cases {o : Outcome α} (h : decide A db id v now success = some (o, db')) :
    Decided A db id v now success o db' := by
  cases hu : db.user? id with
  | none =>
    rw [decide_unknown hu] at h
    cases h
    exact .unknown hu
  | some u =>
    cases hb : u.blocked v.knownDevice now with
    | true =>
      rw [decide_blocked hu hb] at h
      cases h
      exact .blocked hu hb
    | false =>
      rw [decide_unblocked hu hb] at h
      split at h
      · cases h
        exact .failed hu hb
      rename_i hok
      rw [Bool.not_eq_false] at hok
      split at h
      · rename_i hs
        cases h
        unfold secondFactor at hs
        split at hs
        · rename_i hn
          split at hs
          · exact .twoFactorRequired hu hb hok hn ‹_›
          · cases hs
        · cases hs
      · cases h
        exact .failed hu hb
      · rename_i db₁ hs
        obtain ⟨⟨value, db₂⟩, hrun, heq⟩ := Option.map_eq_some_iff.mp h
        cases heq
        refine .success hu hb hok ?_ hrun
        unfold secondFactor at hs
        split at hs
        · rename_i hn
          split at hs
          · cases hs
          · rename_i hr
            cases hs
            exact .notEnrolled hn (by simpa using hr)
        · rename_i nonce hn
          exact .enrolled hn (codeAccepted_true (Option.some.inj hs))

end Credentials

end Kohaku
