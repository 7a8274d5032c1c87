import Kohaku.Basic

/-!
# Mail subjects and recipients
-/

namespace Kohaku

/-- `TEXT_CAP`. -/
def textCap : Nat := 200

/-- `ADDRESS_CAP`. -/
def addressCap : Nat := 254

/-- Cuts `text` to `textCap` characters: its first 199 plus an ellipsis. -/
def cap (text : Str) : Str :=
  if text.length ≤ textCap then text else text.take (textCap - 1) ++ ['…']

/-- Characters that end a line or steer a terminal. -/
def isLineBreakOrControl (c : Char) : Bool :=
  isControl c || c.toNat = 0x2028 || c.toNat = 0x2029

/-- The `Subject` header value: breaks and controls removed, then capped. -/
def subject (text : Str) : Str := cap (text.filter fun c => !isLineBreakOrControl c)

/-- `validate_recipient`; `addressParses` is `lettre::Address::from_str` accepting. -/
def validateRecipient (addressParses : Str → Bool) (address : Str) : Bool :=
  address.length ≤ addressCap && address.count '@' = 1 &&
    !address.any (fun c => isWhitespace c || isControl c) && addressParses address

end Kohaku
