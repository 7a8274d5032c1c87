import Kohaku.Admin.Account

/-!
# Password reset by mail link
-/

namespace Kohaku

open Sql

/-- The recipient of placeholder rows. -/
def placeholderAddress : Str := "placeholder@kohaku.invalid".toList

/-- The mail that carries a reset link. -/
def resetMail (A : App) (link : Str) (recipient : Recipient) (placeholder : Bool) (now : Time) :
    NewMail :=
  let text := Mail.resetLinkText A.mainOrigin now link
  { kind := Mail.resetLink, recipient, subject := text.subject, body := text.body, placeholder }

/-- The account a reset may be requested for: an enabled maintainer with a password. -/
def resettable (db : Db) (email : Str) : Option Nat :=
  (db.users.find? fun u =>
    u.email = email && u.role = .maintainer && !u.disabled && u.passwordHash.isSome).map UserRow.key

/-- A reset token and its mail for such an account, otherwise a placeholder row with a link of
the same shape. -/
def queueReset (A : App) (db : Db) (email : Str) (now : Time) (token : Vector UInt8 32) :
    Option Db :=
  match resettable db email with
  | some id => do
    let (link, db) ← issueResetToken A db id now token
    enqueue A.addressParses db (resetMail A link (.user id) false now) now
  | none =>
    let db := { db with
      tokens := db.tokens.update
        (fun t => t.userId = none && t.purpose = .reset && t.usedAt = none)
        (fun t => { t with usedAt := some now }) (TokenRow.id_used now) }
    enqueue A.addressParses db
      (resetMail A (resetUrl A token) (.address placeholderAddress) true now) now

/-- A token that may be consumed at `now`: an unused, unexpired reset token of an enabled
account. -/
def acceptable (db : Db) (tokenHash : Bytes) (now : Time) (t : TokenRow) : Bool :=
  t.tokenHash = tokenHash && t.purpose = .reset && t.usedAt = none && t.expiresAt > now &&
    t.userId.any fun id => (db.user? id).any fun u => !u.disabled

theorem acceptable_eq_true {db : Db} {tokenHash : Bytes} {now : Time} {t : TokenRow} :
    acceptable db tokenHash now t = true ↔ t.tokenHash = tokenHash ∧ t.purpose = .reset ∧
      t.usedAt = none ∧ now < t.expiresAt ∧
      ∃ id u, t.userId = some id ∧ db.user? id = some u ∧ u.disabled = false := by
  simp only [acceptable, Bool.and_eq_true, decide_eq_true_eq, gt_iff_lt, and_assoc]
  cases t.userId with
  | none => simp
  | some id => cases hu : db.user? id <;> simp [hu]

/-- Whether `token` is a valid, unused reset token at `now`; read only. -/
def tokenValid (A : App) (db : Db) (token : Str) (now : Time) : Bool :=
  isTokenText A.base64 token && db.tokens.any (acceptable db (A.sha256 (asBytes token)) now)

/-- The transaction of `link_submit`: consumes the token in one conditional write, then sets the
password; `none` when it is rolled back. -/
def linkSubmit (A : App) (db : Db) (tokenHash : Bytes) (hash : Str) (now : Time) :
    Option (Bool × Db) :=
  let p := acceptable db tokenHash now
  match db.tokens.rows.filter p with
  | [] => some (false, db)
  | [t] => do
    let id ← t.userId
    let u ← db.user? id
    let db := { db with
      tokens := db.tokens.update p (fun t => { t with usedAt := some now }) (TokenRow.id_used now) }
    let db ← setPassword A db id hash now
    return (true, db.audit (.user id u.role) .userPasswordReset (.user id) now)
  -- `consume_returning` refuses a statement that changed two rows
  | _ => none

end Kohaku
