import Kohaku.Mail.Outbox

/-!
# The account mails

Their kinds, fixed wording and the give-up action of the reset mail, which stops the unused
reset tokens of the row's account.
-/

namespace Kohaku

open Sql

namespace Mail

/-- Lifetime of a reset link, and of the mail carrying it. -/
def resetLifetime : Int := 60 * 60

/-- `SECURITY_LIFETIME`, one day. -/
def securityLifetime : Int := 24 * 60 * 60

/-- The unused reset tokens of an account. -/
def unusedReset (userId : Nat) (t : TokenRow) : Bool :=
  t.userId = some userId && t.purpose = .reset && t.usedAt = none

theorem unusedReset_eq_true {userId : Nat} {t : TokenRow} : unusedReset userId t = true ↔
    t.userId = some userId ∧ t.purpose = .reset ∧ t.usedAt = none := by
  simp only [unusedReset, Bool.and_eq_true, decide_eq_true_eq, and_assoc]

/-- `UPDATE tokens SET used_at = ? WHERE user_id = ? AND purpose = 'reset' AND used_at IS NULL`. -/
def useResetTokens (db : Db) (userId : Nat) (now : Time) : Db :=
  { db with
    tokens := db.tokens.update (unusedReset userId) fun t => { t with usedAt := some now } }

/-- The give-up action of `RESET_LINK`. -/
def expireResetToken (unixepoch : Time) (db : Db) (outboxId : Nat) : Db :=
  -- `user_id = (SELECT …)` holds for no token when the row is gone or has no account
  match (db.outbox.get? outboxId).bind OutboxRow.userId with
  | some userId => useResetTokens db userId unixepoch
  | none => db

/-- `RESET_LINK`: given up, its token stops working. -/
def resetLink : MailKind where
  name := "account_reset_link".toList
  priority := .normal
  token := true
  lifetime := resetLifetime
  giveUp := some expireResetToken

/-- `LOCKOUT`. -/
def lockout : MailKind where
  name := "account_lockout".toList
  priority := .security
  token := false
  lifetime := securityLifetime
  giveUp := none

/-- `PASSWORD_CHANGED`. -/
def passwordChanged : MailKind where
  name := "account_password_changed".toList
  priority := .security
  token := false
  lifetime := securityLifetime
  giveUp := none

/-- The kinds the server is started with. -/
def kinds : List MailKind := [resetLink, lockout, passwordChanged]

/-- A mail's subject and body. -/
structure Text where
  subject : Str
  body : Str
  deriving DecidableEq

/-- The mail with a reset link. -/
def resetLinkText (origin : Str) (now : Time) (link : Str) : Text where
  subject := "Reset your Kohaku password".toList
  body :=
    "Someone asked at ".toList ++ formatUtcMinute now ++
    " to reset the password of your Kohaku account at ".toList ++ origin ++
    ".\n\nTo choose a new password, open this link within one hour. It works once:\n\n".toList ++
    link ++
    "\n\nIf you did not ask for this, ignore this mail: your password stays unchanged.\n".toList

/-- The mail about a lock. -/
def lockoutText (origin : Str) (now : Time) : Text where
  subject := "Kohaku sign-in locked for 15 minutes".toList
  body :=
    "Your Kohaku account at ".toList ++ origin ++ " was locked for 15 minutes at ".toList ++
    formatUtcMinute now ++
    (" after 10 failed\nsign-ins from browsers that have not signed in to it before.\n\n" ++
      "Browsers you signed in with before can still sign in. If the attempts were not\n" ++
      "yours, someone may be guessing your password. " ++
      "You get this mail at most once a day.\n").toList

/-- The mail about a changed password. -/
def passwordChangedText (origin : Str) (now : Time) : Text where
  subject := "Your Kohaku password was changed".toList
  body :=
    "The password of your Kohaku account at ".toList ++ origin ++ " was changed at ".toList ++
    formatUtcMinute now ++
    (".\nEvery session of the account was signed out.\n\n" ++
      "If you did not change it, tell the operator of this Kohaku instance at once.\n").toList

/-! ## What the outbox transactions leave alone -/

/-- Only tokens and the outbox differ. -/
structure MailOnly (db db' : Db) : Prop where
  users : db'.users = db.users
  sessions : db'.sessions = db.sessions
  knownDevices : db'.knownDevices = db.knownDevices
  recoveryCodes : db'.recoveryCodes = db.recoveryCodes
  auditLog : db'.auditLog = db.auditLog

theorem MailOnly.rfl {db : Db} : MailOnly db db := ⟨by rfl, by rfl, by rfl, by rfl, by rfl⟩

theorem MailOnly.trans {db₁ db₂ db₃ : Db} (h₁ : MailOnly db₁ db₂) (h₂ : MailOnly db₂ db₃) :
    MailOnly db₁ db₃ :=
  ⟨h₂.users.trans h₁.users, h₂.sessions.trans h₁.sessions,
    h₂.knownDevices.trans h₁.knownDevices, h₂.recoveryCodes.trans h₁.recoveryCodes,
    h₂.auditLog.trans h₁.auditLog⟩

theorem MailOnly.outbox {db : Db} {t : AutoTable OutboxRow OutboxRow.id} :
    MailOnly db { db with outbox := t } := ⟨by rfl, by rfl, by rfl, by rfl, by rfl⟩

/-- The only give-up action is the one of the reset mail. -/
theorem giveUp_of_findKind {name : Str} {action : Time → Db → Nat → Db}
    (h : (findKind kinds name).bind MailKind.giveUp = some action) :
    name = resetLink.name ∧ action = expireResetToken := by
  obtain ⟨kind, hk, ha⟩ := Option.bind_eq_some_iff.mp h
  have hname := List.find?_some hk
  rw [decide_eq_true_eq] at hname
  have hmem := List.mem_of_find?_eq_some hk
  simp only [kinds, List.mem_cons, List.not_mem_nil, or_false] at hmem
  rcases hmem with rfl | rfl | rfl
  · cases ha
    exact ⟨hname.symm, rfl⟩
  · cases ha
  · cases ha

/-- The tokens after the row is given up: a reset mail stops those of its account. -/
def tokensAfter (unixepoch : Time) (db : Db) (row : OutboxRow) : AutoTable TokenRow TokenRow.id :=
  if row.kind = resetLink.name then
    row.userId.elim db.tokens fun userId => (useResetTokens db userId unixepoch).tokens
  else db.tokens

/-- Every way a give-up can end. -/
theorem giveUp_cases (unixepoch : Time) (db : Db) (id : Nat) :
    (giveUp kinds unixepoch db id = db ∧ ∀ row ∈ db.outbox, row.id = id → row.unsent = false) ∨
      ∃ row ∈ db.outbox, row.id = id ∧ row.unsent = true ∧ ∃ outbox,
        giveUp kinds unixepoch db id =
          { db with tokens := tokensAfter unixepoch db row, outbox := outbox } ∧
        (outbox = (db.outbox.delete fun r => r.id = id) ∨
          outbox = db.outbox.update (fun r => r.id = id && r.unsent)
            fun r => { r with outcome := some .givenUp }) := by
  unfold giveUp
  split
  · rename_i hf
    refine .inl ⟨rfl, fun row hrow hid => ?_⟩
    simpa [hid] using Table.find?_eq_none.mp hf row hrow
  · rename_i row hf
    have hrow := Table.mem_of_find? hf
    have hp := Table.of_find? hf
    rw [Bool.and_eq_true, decide_eq_true_eq] at hp
    refine .inr ⟨row, hrow, hp.1, hp.2, ?_⟩
    have hfinish : ∀ db₁ : Db, db₁ = { db with tokens := tokensAfter unixepoch db row } →
        ∃ outbox, (if row.token = true then
          { db₁ with outbox := db₁.outbox.delete fun r => r.id = id }
          else { db₁ with
            outbox := db₁.outbox.update (fun r => r.id = id && r.unsent)
              fun r => { r with outcome := some .givenUp } }) =
            { db with tokens := tokensAfter unixepoch db row, outbox := outbox } ∧
          (outbox = (db.outbox.delete fun r => r.id = id) ∨
            outbox = db.outbox.update (fun r => r.id = id && r.unsent)
              fun r => { r with outcome := some .givenUp }) := by
      rintro db₁ rfl
      split
      · exact ⟨_, rfl, .inl rfl⟩
      · exact ⟨_, rfl, .inr rfl⟩
    cases ha : (findKind kinds row.kind).bind MailKind.giveUp with
    | some action =>
      obtain ⟨hname, rfl⟩ := giveUp_of_findKind ha
      refine hfinish (expireResetToken unixepoch db id) ?_
      have hget : db.outbox.get? id = some row := Table.get?_eq_some.mpr ⟨hrow, hp.1⟩
      simp only [expireResetToken, hget, Option.bind_some, tokensAfter, if_pos hname]
      cases row.userId <;> rfl
    | none =>
      refine hfinish _ ?_
      rw [tokensAfter, if_neg]
      intro hname
      rw [hname] at ha
      cases ha

theorem giveUp_mailOnly (unixepoch : Time) (db : Db) (id : Nat) :
    MailOnly db (giveUp kinds unixepoch db id) := by
  rcases giveUp_cases unixepoch db id with ⟨heq, -⟩ | ⟨row, -, -, -, outbox, heq, -⟩
  · rw [heq]
    exact .rfl
  · rw [heq]
    exact ⟨rfl, rfl, rfl, rfl, rfl⟩

theorem giveUpExpired_mailOnly (unixepoch : Time) (db : Db) (now : Time) :
    MailOnly db (giveUpExpired kinds unixepoch db now) := by
  unfold giveUpExpired
  induction expiredIds db now generalizing db with
  | nil => exact .rfl
  | cons id ids ih => exact (giveUp_mailOnly unixepoch db id).trans (ih _)

theorem pick_mailOnly {unixepoch : Time} {db db' : Db} {now : Time} {p : Pick}
    (h : pick kinds unixepoch db now = some (p, db')) : MailOnly db db' := by
  rw [(pick_cases h).1]
  exact (giveUpExpired_mailOnly unixepoch db now).trans .outbox

theorem record_mailOnly (unixepoch : Time) (db : Db) (id : Nat) (outcome : Delivery)
    (endedAt : Time) : MailOnly db (record kinds unixepoch db id outcome endedAt) := by
  unfold record
  split
  · exact .rfl
  dsimp only
  split
  · split
    · exact .outbox
    · exact .outbox
  · split
    · exact .outbox
    · exact MailOnly.outbox.trans (giveUp_mailOnly ..)

end Mail

end Kohaku
