import Kohaku.Keys
import Kohaku.Auth.Base32

/-!
# TOTP and the code field

RFC 6238 codes over seeds derived from the instance secret. HMAC-SHA1 is a field of `Crypto`;
the dynamic truncation, the six digits and the three-step window are the program's own.
-/

namespace Kohaku

/-- `STEP_SECONDS`. -/
def stepSeconds : Int := 30

/-- `DIGITS`. -/
def digits : Nat := 6

/-- `SEED_BYTES`. -/
def seedBytes : Nat := 20

/-- The seed of account `userId` enrolled with `nonce`. -/
def deriveSeed (C : Crypto) (secret : Bytes) (userId : Nat) (nonce : Bytes) : Bytes :=
  (mac C secret .totp [i64BeBytes userId, nonce]).toList.take seedBytes

/-- The time step of a clock value. -/
def stepAt (now : Time) : Int := now / stepSeconds

/-- `u32::from_be_bytes`. -/
def u32FromBeBytes (bytes : Bytes) : Nat := bytes.foldl (fun n b => n * 256 + b.toNat) 0

/-- The code of `step`: HOTP with dynamic truncation to six digits. The offset is at most 15, so
all four bytes are inside the digest. -/
def code (C : Crypto) (seed : Bytes) (step : Int) : Str :=
  let digest := C.hmacSha1 seed (i64BeBytes step)
  let offset := (digest[19] &&& 0x0f).toNat
  let byte := fun i : Nat => digest.toList.getD (offset + i) 0
  let binary := u32FromBeBytes [byte 0 &&& 0x7f, byte 1, byte 2, byte 3]
  padded 6 (binary % 1000000 : Nat)

/-- Whether `text` has the shape of a TOTP code: exactly six ASCII digits. -/
def isCode (text : Str) : Bool :=
  (asBytes text).length = digits && (asBytes text).all isAsciiDigit

/-- The latest step among the current one and one either side whose code is `text`. -/
def matchingStep (C : Crypto) (seed : Bytes) (text : Str) (now : Time) : Option Int :=
  if !isCode text then none
  else
    let current := stepAt now
    [current - 1, current, current + 1].foldl
      (fun found step =>
        if ctEq (asBytes (code C seed step)) (asBytes text) then some step else found) none

/-- A matching step is one of the three, and its code is the text. -/
theorem matchingStep_spec {C : Crypto} {seed : Bytes} {text : Str} {now : Time} {step : Int}
    (h : matchingStep C seed text now = some step) :
    stepAt now - 1 ≤ step ∧ step ≤ stepAt now + 1 ∧
      asBytes (code C seed step) = asBytes text := by
  unfold matchingStep at h
  split at h
  · cases h
  · simp only [List.foldl_cons, List.foldl_nil] at h
    -- The fold keeps the last of the three that matches.
    split at h
    · rename_i hc
      obtain rfl := Option.some.inj h
      exact ⟨by omega, by omega, ctEq_iff.mp hc⟩
    · split at h
      · rename_i hc
        obtain rfl := Option.some.inj h
        exact ⟨by omega, by omega, ctEq_iff.mp hc⟩
      · split at h
        · rename_i hc
          obtain rfl := Option.some.inj h
          exact ⟨by omega, by omega, ctEq_iff.mp hc⟩
        · cases h

end Kohaku
