import Kohaku.Auth.Mail
import Kohaku.Auth.Password

/-!
# Reset tokens and the account commands

`issue_reset_token` is shared by the reset form and `kohaku admin reset-password`.
-/

namespace Kohaku

open Sql

/-- `Urls::token_link`: always on the main host. -/
def tokenLink (A : App) (path : Str) : Str := A.mainOrigin ++ path

/-- The row of a new reset token. -/
abbrev newResetToken (A : App) (userId : Nat) (now : Time) (token : Vector UInt8 32) (id : Nat) :
    TokenRow where
  id := id
  purpose := .reset
  tokenHash := A.sha256 (asBytes (tokenText A.base64 token))
  userId := some userId
  expiresAt := now + Mail.resetLifetime
  usedAt := none

/-- The link of a reset token. -/
def resetUrl (A : App) (token : Vector UInt8 32) : Str :=
  tokenLink A ("/admin/reset/".toList ++ tokenText A.base64 token)

/-- A new one-hour reset token of `userId` after invalidating its others, and the link; `none` when
the token hash is already stored. -/
def issueResetToken (A : App) (db : Db) (userId : Nat) (now : Time) (token : Vector UInt8 32) :
    Option (Str × Db) :=
  let db := Mail.useResetTokens db userId now
  if db.tokens.any fun t => t.tokenHash = A.sha256 (asBytes (tokenText A.base64 token)) then none
  else
    some (resetUrl A token,
      { db with tokens := db.tokens.insertNew (newResetToken A userId now token) })

/-- The tokens table after issuing a reset token. -/
def issuedTokens (A : App) (db : Db) (userId : Nat) (now : Time) (token : Vector UInt8 32) :
    AutoTable TokenRow TokenRow.id :=
  (Mail.useResetTokens db userId now).tokens.insertNew (newResetToken A userId now token)

theorem issueResetToken_eq_some {A : App} {db db' : Db} {userId : Nat} {now : Time}
    {token : Vector UInt8 32} {link : Str}
    (h : issueResetToken A db userId now token = some (link, db')) :
    link = resetUrl A token ∧ db' = { db with tokens := issuedTokens A db userId now token } ∧
      ∀ t ∈ db.tokens, t.tokenHash ≠ A.sha256 (asBytes (tokenText A.base64 token)) := by
  simp only [issueResetToken] at h
  split at h
  · cases h
  · rename_i hany
    cases h
    refine ⟨rfl, rfl, ?_⟩
    rw [Bool.not_eq_true, Table.any_eq_false] at hany
    intro t ht
    have := hany _ (AutoTable.mem_update.mpr ⟨t, ht, rfl⟩)
    simp only [decide_eq_false_iff_not] at this
    split at this <;> exact this

/-! ## Commands -/

/-- The account of a command's email argument. -/
def accountOf (db : Db) (email : Str) : Option Nat :=
  (db.users.find? fun u => u.email = normalizeEmail email).map UserRow.key

/-- `kohaku admin unlock`: ends the account's lock and resets both failure counts. -/
def unlock (db : Db) (email : Str) (now : Time) : Option Db := do
  let id ← accountOf db email
  let db := db.updateUser id fun u =>
    { u with
      lockedUntil := none, failedLogins := 0, deviceFailures := 0, deviceWindowStart := none }
  return db.audit .cli .userUnlock (.user id) now

/-- `kohaku admin reset-password`: a reset link for the account, any role; mails nothing. -/
def resetPassword (A : App) (db : Db) (email : Str) (now : Time) (token : Vector UInt8 32) :
    Option (Str × Db) := do
  let id ← accountOf db email
  let (link, db) ← issueResetToken A db id now token
  return (link, db.audit .cli .userResetLink (.user id) now)

end Kohaku
