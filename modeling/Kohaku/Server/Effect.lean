import Kohaku.Server

/-!
# What a transaction can do

`Effect A db tx r db'` lists, case by case, every way the transaction `tx` can commit: the guards
that held in `db`, the value `r` it returns and the database `db'` it leaves. `Tx.run_effect` is the
only place where the definitions of the transactions are taken apart; everything later is a case
analysis on `Effect`.
-/

namespace Kohaku

open Sql Credentials

/-- A check that passes: the guards of `decide` before the success work, with the account's row
`u` and the database `db₁` after the second factor was consumed. -/
structure Passed (A : App) (db : Db) (c : Checking) (u : UserRow) (db₁ : Db) : Prop where
  user : db.user? c.accountId = some u
  unblocked : u.blocked c.verified.knownDevice c.now = false
  password : passwordOk u.toAccount c.verified = true
  factor : SecondFactor A db u c.verified.code c.now db₁

/-- The devices after a login of `userId` that carried the cookie hash `device`. -/
def loginDevices (A : App) (db : Db) (userId : Nat) (device : Option Bytes) (now : Time)
    (token : Vector UInt8 32) : Table DeviceRow DeviceRow.id :=
  if device.any fun hash => isKnownDevice db userId hash now then db.knownDevices
  else evictDevices (db.knownDevices.insertNew (newDevice A userId now token)
      (id_newDevice A userId now token)) userId

/-- The database after `setPassword`. -/
def passwordSet (A : App) (db : Db) (userId : Nat) (hash : Str) (now : Time) : Db :=
  { db.updateUser userId (fun u => { u with passwordHash := some hash })
    (UserRow.id_withPassword hash) with
    sessions := db.sessions.delete fun s => s.userId = userId
    knownDevices := db.knownDevices.delete fun d => d.userId = userId
    tokens := (Mail.useResetTokens db userId now).tokens
    outbox := db.outbox.insertNew ((passwordChangedMail A userId now).row now (some userId) none) }

theorem setPassword_eq (A : App) (db : Db) (userId : Nat) (hash : Str) (now : Time) :
    setPassword A db userId hash now = some (passwordSet A db userId hash now) := rfl

/-- What a transaction that returns a result has done, by its cases. -/
inductive Effect (A : App) (db : Db) : Tx → Result → Db → Prop
  | touch : Effect A db (.touch sid now) .unit (Kohaku.touch db sid now)
  | logout : Effect A db (.logout sid) .unit (Kohaku.logout db sid)
  | notEnrolled : (∀ codes, r ≠ .enrolled codes) →
    Effect A db (.confirmTotp user text now d) (.confirmed r) db
  | enrolled : s ∈ db.sessions → s.id = user.sessionId → s.pendingTotpNonce = some nonce →
    matchingStep A.toCrypto (deriveSeed A.toCrypto A.secret user.userId nonce) (trim text) now =
      some step →
    codes.length = Recovery.count → (∀ c ∈ codes, Recovery.IsRecoveryCode c) →
    rc.rows = (db.recoveryCodes.delete fun r => r.userId = user.userId).rows ++
      codes.map (Recovery.row A user.userId) →
    Effect A db (.confirmTotp user text now d) (.confirmed (.enrolled codes))
      { db.updateUser user.userId (fun u =>
          { u with totpNonce := some nonce, totpLastStep := some step }) with
        recoveryCodes := rc
        sessions := (db.sessions.delete fun s =>
            s.userId = user.userId && s.id ≠ user.sessionId).update
          (fun s => s.id = user.sessionId) fun s => { s with pendingTotpNonce := none }
        knownDevices := db.knownDevices.delete fun d => d.userId = user.userId
        auditLog := log }
  | endOtherSessions :
    Effect A db (.endOtherSessions user now) .unit (Kohaku.endOtherSessions db user now)
  | refused : (∀ value, o ≠ .success value) → Effect A db (.decide c work d) (.outcome o) db
  | failed : db.user? c.accountId = some u → u.blocked c.verified.knownDevice c.now = false →
    Effect A db (.decide c work d) (.outcome .failure)
      (afterFailure A db u c.verified.knownDevice c.now)
  | login : Passed A db c u db₁ →
    Effect A db (.decide c (.login device) d) (.outcome (.success value))
      { resetCounters db₁ c.accountId with
        sessions := db.sessions.insertNew (newSession A c.accountId c.now d.token d.csrf)
        knownDevices := loginDevices A db c.accountId device c.now d.device }
  | changePassword : Passed A db c u db₁ →
    Effect A db (.decide c (.changePassword phc) d) (.outcome (.success value))
      { passwordSet A (resetCounters db₁ c.accountId) c.accountId phc c.now with auditLog := log }
  | startTotp : Passed A db c u db₁ →
    Effect A db (.decide c (.startTotp sessionId) d) (.outcome (.success value))
      { resetCounters db₁ c.accountId with
        sessions := db.sessions.update (fun s => s.id = sessionId)
          fun s => { s with pendingTotpNonce := some d.nonce.toList } }
  | disableTotp : Passed A db c u db₁ →
    Effect A db (.decide c .disableTotp d) (.outcome (.success value))
      { (resetCounters db₁ c.accountId).updateUser c.accountId fun u =>
          { u with totpNonce := none, totpLastStep := none } with
        recoveryCodes := db₁.recoveryCodes.delete fun r => r.userId = c.accountId
        knownDevices := db.knownDevices.delete fun d => d.userId = c.accountId
        auditLog := log }
  | regenerateCodes : Passed A db c u db₁ →
    codes.length = Recovery.count → (∀ c ∈ codes, Recovery.IsRecoveryCode c) →
    rc.rows = (db₁.recoveryCodes.delete fun r => r.userId = c.accountId).rows ++
      codes.map (Recovery.row A c.accountId) →
    Effect A db (.decide c .regenerateCodes d) (.outcome (.success (.codes codes)))
      { resetCounters db₁ c.accountId with recoveryCodes := rc, auditLog := log }
  | resetQueued : resettable db email = some uid →
    (∀ t ∈ db.tokens, t.tokenHash ≠ A.sha256 (asBytes (tokenText A.base64 token))) →
    Effect A db (.queueReset email now token) .unit
      { db with
        tokens := issuedTokens A db uid now token
        outbox := db.outbox.insertNew
          ((resetMail A (resetUrl A token) (.user uid) false now).row now (some uid) none) }
  | placeholderQueued : resettable db email = none →
    Effect A db (.queueReset email now token) .unit
      { db with
        tokens := db.tokens.update
          (fun t => t.userId = none && t.purpose = .reset && t.usedAt = none)
          fun t => { t with usedAt := some now }
        outbox := db.outbox.insertNew
          ((resetMail A (resetUrl A token) (.address placeholderAddress) true now).row now none
            (some placeholderAddress)) }
  | linkRefused : (∀ t ∈ db.tokens, acceptable db tokenHash now t = false) →
    Effect A db (.linkSubmit tokenHash phc now) (.linked false) db
  | linkConsumed : t ∈ db.tokens → acceptable db tokenHash now t = true →
    (∀ t' ∈ db.tokens, acceptable db tokenHash now t' = true → t' = t) →
    t.userId = some uid → db.user? uid = some u →
    Effect A db (.linkSubmit tokenHash phc now) (.linked true)
      { passwordSet A { db with
          tokens := db.tokens.update (acceptable db tokenHash now)
            fun t => { t with usedAt := some now } } uid phc now with
        auditLog := log }
  | unlock : accountOf db email = some uid →
    Effect A db (.unlock email now) .unit
      { db.updateUser uid fun u =>
          { u with
            lockedUntil := none, failedLogins := 0, deviceFailures := 0
            deviceWindowStart := none } with
        auditLog := log }
  | resetPassword : accountOf db email = some uid →
    (∀ t ∈ db.tokens, t.tokenHash ≠ A.sha256 (asBytes (tokenText A.base64 token))) →
    Effect A db (.resetPassword email now token) (.link (resetUrl A token))
      { db with tokens := issuedTokens A db uid now token, auditLog := log }
  | pick : Kohaku.pick Mail.kinds unixepoch db now = some (p, db') →
    Effect A db (.pick now unixepoch) (.picked p) db'
  | record : Effect A db (.record row outcome endedAt unixepoch) .unit
      (Kohaku.record Mail.kinds unixepoch db row outcome endedAt)
  | retentionOutbox : Effect A db (.retentionOutbox now unixepoch) .unit
      (Kohaku.retentionOutbox Mail.kinds unixepoch db now)
  | retentionAudit : Effect A db (.retentionAudit now) .unit (Kohaku.retentionAudit db now)
  | retentionSignIn : Effect A db (.retentionSignIn now) .unit (Kohaku.retentionSignIn db now)
  | setDisabled : Effect A db (.setDisabled uid b) .unit
      (db.updateUser uid fun u => { u with disabled := b })

variable {A : App} {db db' : Db}

/-- The second factor leaves everything but accounts and recovery codes alone. -/
theorem SecondFactor.sessions {u : UserRow} {code : Str} {now : Time} {db₁ : Db}
    (h : SecondFactor A db u code now db₁) :
    db₁.sessions = db.sessions ∧ db₁.knownDevices = db.knownDevices ∧ db₁.tokens = db.tokens ∧
      db₁.outbox = db.outbox := by
  cases h with
  | notEnrolled => exact ⟨rfl, rfl, rfl, rfl⟩
  | enrolled _ ha => cases ha <;> exact ⟨rfl, rfl, rfl, rfl⟩

theorem confirmTotp_effect {user : SessionUser} {code : Str} {now : Time} {d : Draws}
    {r : Confirmed} (h : confirmTotp A db user code now d = some (r, db')) :
    Effect A db (.confirmTotp user code now d) (.confirmed r) db' := by
  unfold confirmTotp at h
  split at h
  · cases h
    exact .notEnrolled (by simp)
  rename_i nonce hpending
  obtain ⟨s, hs, hn⟩ := Option.bind_eq_some_iff.mp hpending
  obtain ⟨hmem, hid⟩ := Table.get?_eq_some.mp hs
  dsimp only at h
  split at h
  · cases h
    exact .notEnrolled (by simp)
  rename_i step hstep
  simp only [Option.bind_eq_bind, Option.bind_eq_some_iff, Option.pure_def, Option.some.injEq,
    Prod.mk.injEq] at h
  obtain ⟨⟨codes, db₁⟩, hrep, rfl, rfl⟩ := h
  obtain ⟨hlen, hall, hdb, hrows⟩ := Recovery.replace_spec hrep
  dsimp only
  rw [hdb]
  exact .enrolled hmem hid hn hstep hlen hall hrows

/-- The success work on an account that passed. -/
theorem Passed.work_effect {c : Checking} {u : UserRow} {db₁ : Db} {work : Work} {d : Draws}
    {value : Value} (hp : Passed A db c u db₁)
    (h : work.run A d (resetCounters db₁ c.accountId) u.toAccount c.now = some (value, db')) :
    Effect A db (.decide c work d) (.outcome (.success value)) db' := by
  obtain ⟨hs, hd, ht, ho⟩ := SecondFactor.sessions hp.factor
  have hid := Db.id_of_user? hp.user
  cases work with
  | login device =>
    simp only [Work.run, Work.loginRun, hid, Option.bind_eq_bind, Option.bind_eq_some_iff,
      Option.pure_def] at h
    obtain ⟨db₂, hc, h⟩ := h
    rw [createSession_eq_some hc] at h
    have hknown : (device.any fun hash => isKnownDevice
        { resetCounters db₁ c.accountId with
          sessions := (resetCounters db₁ c.accountId).sessions.insertNew
            (newSession A c.accountId c.now d.token d.csrf) } c.accountId hash c.now) =
        device.any fun hash => isKnownDevice db c.accountId hash c.now := by
      simp only [isKnownDevice, resetCounters, Db.knownDevices_updateUser, hd]
    have key : Effect A db (.decide c (.login device) d) (.outcome (.success value)) _ := .login hp
    rw [hknown] at h
    split at h
    · rename_i hk
      cases h
      simpa only [loginDevices, hk, if_true, resetCounters, Db.sessions_updateUser,
        Db.knownDevices_updateUser, hs, ← hd] using key
    · rename_i hk
      simp only [Option.bind_eq_some_iff, Option.some.injEq, Prod.mk.injEq] at h
      obtain ⟨db₃, ha, rfl, rfl⟩ := h
      rw [addDevice_eq_some ha]
      simpa only [loginDevices, hk, Bool.false_eq_true, if_false, resetCounters,
        Db.sessions_updateUser, Db.knownDevices_updateUser, hs, hd] using key
  | changePassword hash =>
    simp only [Work.run, Work.changePasswordRun, hid, setPassword_eq, Option.bind_eq_bind,
      Option.bind_some, Option.pure_def, Option.some.injEq, Prod.mk.injEq] at h
    obtain ⟨rfl, rfl⟩ := h
    exact .changePassword hp
  | startTotp sessionId =>
    cases h
    have key : Effect A db (.decide c (.startTotp sessionId) d)
        (.outcome (.success (.nonce d.nonce.toList))) _ := .startTotp hp
    simpa only [resetCounters, Db.sessions_updateUser, hs] using key
  | disableTotp =>
    cases h
    rw [hid]
    change Effect A db _ _
      { (resetCounters db₁ c.accountId).updateUser c.accountId fun u =>
          { u with totpNonce := none, totpLastStep := none } with
        recoveryCodes := db₁.recoveryCodes.delete fun r => r.userId = c.accountId
        knownDevices := db₁.knownDevices.delete fun d => d.userId = c.accountId
        auditLog := _ }
    rw [hd]
    exact .disableTotp hp
  | regenerateCodes =>
    simp only [Work.run, Work.regenerateCodesRun, hid, Option.bind_eq_bind, Option.bind_eq_some_iff,
      Option.pure_def, Option.some.injEq, Prod.mk.injEq] at h
    obtain ⟨⟨codes, db₂⟩, hrep, rfl, rfl⟩ := h
    obtain ⟨hlen, hall, hdb, hrows⟩ := Recovery.replace_spec hrep
    dsimp only
    rw [hdb]
    exact .regenerateCodes hp hlen hall hrows

theorem decide_effect {c : Checking} {work : Work} {d : Draws} {o : Outcome Value}
    (h : Credentials.decide A db c.accountId c.verified c.now
      (fun db account now => work.run A d db account now) = some (o, db')) :
    Effect A db (.decide c work d) (.outcome o) db' := by
  cases decide_cases h with
  | unknown | blocked | twoFactorRequired => exact .refused (by simp)
  | failed hu hb => exact .failed hu hb
  | success hu hb hok hf hs => exact Passed.work_effect ⟨hu, hb, hok, hf⟩ hs

theorem queueReset_effect {email : Str} {now : Time} {token : Vector UInt8 32}
    (h : queueReset A db email now token = some db') :
    Effect A db (.queueReset email now token) .unit db' := by
  unfold queueReset at h
  split at h
  · rename_i id hid
    simp only [Option.bind_eq_bind, Option.bind_eq_some_iff] at h
    obtain ⟨⟨link, db₁⟩, hi, he⟩ := h
    obtain ⟨rfl, rfl, hfresh⟩ := issueResetToken_eq_some hi
    cases he
    exact .resetQueued hid hfresh
  · rename_i hid
    dsimp only [enqueue, resetMail] at h
    split at h
    · cases h
      exact .placeholderQueued hid
    · cases h

theorem linkSubmit_effect {tokenHash : Bytes} {hash : Str} {now : Time} {b : Bool}
    (h : linkSubmit A db tokenHash hash now = some (b, db')) :
    Effect A db (.linkSubmit tokenHash hash now) (.linked b) db' := by
  unfold linkSubmit at h
  dsimp only at h
  split at h
  · rename_i hnil
    cases h
    refine .linkRefused fun t ht => ?_
    rw [List.filter_eq_nil_iff] at hnil
    simpa using hnil t ht
  · rename_i t hone
    have hmem : ∀ t', (t' ∈ db.tokens ∧ acceptable db tokenHash now t' = true) ↔ t' = t := by
      intro t'
      rw [← List.mem_singleton (a := t'), ← hone, List.mem_filter]
      rfl
    simp only [Option.bind_eq_bind, Option.bind_eq_some_iff, setPassword_eq, Option.some.injEq,
      Option.pure_def, Prod.mk.injEq, exists_eq_left'] at h
    obtain ⟨id, hid, u, hu, rfl, rfl⟩ := h
    obtain ⟨ht, hacc⟩ := (hmem t).mpr rfl
    exact .linkConsumed ht hacc (fun t' ht' hacc' => (hmem t').mp ⟨ht', hacc'⟩) hid hu
  · cases h

/-- Every committed transaction is one of the cases of `Effect`. -/
theorem Tx.run_effect {tx : Tx} {r : Result} (h : tx.run A db = some (r, db')) :
    Effect A db tx r db' := by
  cases tx with
  | confirmTotp =>
    simp only [Tx.run, Option.map_eq_some_iff, Prod.mk.injEq] at h
    obtain ⟨_, h, rfl, rfl⟩ := h
    exact confirmTotp_effect h
  | decide =>
    simp only [Tx.run, Option.map_eq_some_iff, Prod.mk.injEq] at h
    obtain ⟨_, h, rfl, rfl⟩ := h
    exact decide_effect h
  | queueReset =>
    simp only [Tx.run, Option.map_eq_some_iff, Prod.mk.injEq] at h
    obtain ⟨_, h, rfl, rfl⟩ := h
    exact queueReset_effect h
  | linkSubmit =>
    simp only [Tx.run, Option.map_eq_some_iff, Prod.mk.injEq] at h
    obtain ⟨_, h, rfl, rfl⟩ := h
    exact linkSubmit_effect h
  | unlock =>
    simp only [Tx.run, Kohaku.unlock, Option.bind_eq_bind, Option.map_eq_some_iff,
      Option.bind_eq_some_iff, Option.pure_def, Option.some.injEq, Prod.mk.injEq] at h
    obtain ⟨_, ⟨id, hid, rfl⟩, rfl, rfl⟩ := h
    exact .unlock hid
  | resetPassword =>
    simp only [Tx.run, Kohaku.resetPassword, Option.bind_eq_bind, Option.map_eq_some_iff,
      Option.bind_eq_some_iff, Option.pure_def, Option.some.injEq, Prod.mk.injEq] at h
    obtain ⟨_, ⟨id, hid, ⟨link, db₁⟩, hi, rfl⟩, rfl, rfl⟩ := h
    obtain ⟨rfl, rfl, hfresh⟩ := issueResetToken_eq_some hi
    exact .resetPassword hid hfresh
  | pick =>
    simp only [Tx.run, Option.map_eq_some_iff, Prod.mk.injEq] at h
    obtain ⟨⟨p, db₁⟩, h, rfl, rfl⟩ := h
    exact .pick h
  | touch => cases h; exact .touch
  | logout => cases h; exact .logout
  | endOtherSessions => cases h; exact .endOtherSessions
  | record => cases h; exact .record
  | retentionOutbox => cases h; exact .retentionOutbox
  | retentionAudit => cases h; exact .retentionAudit
  | retentionSignIn => cases h; exact .retentionSignIn
  | setDisabled => cases h; exact .setDisabled

/-- A deciding transaction returns an outcome. -/
theorem Effect.outcome {c : Checking} {work : Work} {d : Draws} {r : Result}
    (h : Effect A db (.decide c work d) r db') : ∃ o, r = .outcome o := by
  cases h <;> exact ⟨_, rfl⟩

/-- A check that ends in success has passed. -/
theorem Effect.passed {c : Checking} {work : Work} {d : Draws} {value : Value}
    (h : Effect A db (.decide c work d) (.outcome (.success value)) db') :
    ∃ u db₁, Passed A db c u db₁ := by
  cases h with
  | refused ho => exact absurd rfl (ho value)
  | login hp | changePassword hp | startTotp hp | disableTotp hp | regenerateCodes hp =>
    exact ⟨_, _, hp⟩

end Kohaku
