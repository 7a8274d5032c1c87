import Kohaku.Mail.Message
import Kohaku.Keys

/-!
# Account emails and the password rule
-/

namespace Kohaku

/-- Password length in Unicode scalar values. -/
def passwordMin : Nat := 12

/-- `PASSWORD_MAX`. -/
def passwordMax : Nat := 1024

/-- An email as stored and looked up: surrounding ASCII whitespace removed, ASCII letters
lowercased. -/
def normalizeEmail (email : Str) : Str :=
  (trimMatches isAsciiWhitespace email).map toAsciiLowercase

/-- Whether a normalized email follows the email rule and can be mailed to. -/
def validEmail (A : App) (email : Str) : Bool := validateRecipient A.addressParses email

/-- What a new password breaks. -/
inductive PasswordRule
  | tooShort
  | tooLong
  deriving DecidableEq, Repr

/-- The text shown for it. -/
def PasswordRule.message : PasswordRule → Str
  | .tooShort => "The password needs at least 12 characters.".toList
  | .tooLong => "The password may have at most 1024 characters.".toList

/-- `check_password_rule`: between 12 and 1024 characters. -/
def checkPasswordRule (password : Str) : Except PasswordRule Unit :=
  if password.length < passwordMin then .error .tooShort
  else if password.length > passwordMax then .error .tooLong
  else .ok ()

end Kohaku
