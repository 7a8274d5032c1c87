import Kohaku.Basic
import Kohaku.Base64.UrlSafe

/-!
# Keys, hashes and the MAC encoding

The cryptographic primitives and base64 come from outside the repository (`argon2`, `sha2`, `sha1`,
`hmac`, `base64`), so they are the fields of `Crypto` and every result holds for any choice of them;
of base64 the laws of `Base64.Engine` are assumed.
-/

namespace Kohaku

/-- The third-party primitives the program calls. -/
structure Crypto where
  /-- SHA-256, the stored form of session, device, token and recovery values. -/
  sha256 : Bytes → Bytes
  /-- HMAC-SHA256 under a key. -/
  hmacSha256 : Bytes → Bytes → Vector UInt8 32
  /-- HMAC-SHA1 under a key. -/
  hmacSha1 : Bytes → Bytes → Vector UInt8 20
  /-- Whether a password matches an argon2id PHC string. -/
  verifyPassword : Str → Str → Bool
  /-- The argon2id PHC string of a password with a 16-byte salt. -/
  hashPassword : Str → Bytes → Str
  /-- `URL_SAFE_NO_PAD`. -/
  base64 : Base64.Engine

/-- What the server holds besides the database. -/
structure App extends Crypto where
  /-- The decoded `KOHAKU_SECRET`. -/
  secret : Bytes
  mainOrigin : Str
  /-- The hash checked when there is no account hash to check. -/
  dummyHash : Str
  /-- `lettre::Address::from_str` accepts. -/
  addressParses : Str → Bool

/-- What a MAC is for. -/
inductive Purpose
  | keycheck
  | totp
  | mailAddress
  deriving DecidableEq, Repr

/-- The label that keeps the keys of two purposes apart. -/
def Purpose.label : Purpose → Str
  | .keycheck => "kohaku/keycheck".toList
  | .totp => "kohaku/totp".toList
  | .mailAddress => "kohaku/mail-address".toList

/-- What `mac` feeds to HMAC: the purpose label and then the fields, each prefixed by its length
as a big-endian `u32`. -/
def macInput (purpose : Purpose) (fields : List Bytes) : Bytes :=
  (asBytes purpose.label :: fields).flatMap fun part => beBytes 4 part.length ++ part

/-- HMAC-SHA256 under `key` of the purpose and the fields. -/
def mac (C : Crypto) (key : Bytes) (purpose : Purpose) (fields : List Bytes) : Vector UInt8 32 :=
  C.hmacSha256 key (macInput purpose fields)

/-! ## Tokens -/

/-- `random_token` from the 32 bytes drawn: its text. -/
def tokenText (base64 : Base64.Engine) (bytes : Vector UInt8 32) : Str := base64.encode bytes.toList

/-- Length of a token's text. -/
def tokenTextLen : Nat := 43

/-- Whether `text` has the shape of a token: exactly 43 base64url characters. -/
def isTokenText (base64 : Base64.Engine) (text : Str) : Bool :=
  let bytes := asBytes text
  bytes.length = tokenTextLen &&
    bytes.all (fun b =>
      isAsciiDigit b || (0x41 ≤ b && b ≤ 0x5A) || (0x61 ≤ b && b ≤ 0x7A) || b = 0x2D || b = 0x5F) &&
    (base64.decode text).isSome

/-- A text over the base64url alphabet is ASCII. -/
theorem asBytes_of_alphabet {text : Str} (h : ∀ c ∈ text, c ∈ Base64.alphabet) :
    asBytes text = text.map fun c => UInt8.ofNat c.toNat := by
  have hone : ∀ c ∈ Base64.alphabet, String.utf8EncodeChar c = [UInt8.ofNat c.toNat] := by
    rw [← List.forall_iff_forall_mem]
    decide
  unfold asBytes
  induction text with
  | nil => rfl
  | cons c text ih =>
    rw [List.flatMap_cons, hone c (h c List.mem_cons_self),
      ih fun d hd => h d (List.mem_cons_of_mem _ hd)]
    rfl

/-- Every token drawn has the shape that is checked before a query. -/
theorem isTokenText_tokenText (base64 : Base64.Engine) (bytes : Vector UInt8 32) :
    isTokenText base64 (tokenText base64 bytes) = true := by
  have halph : ∀ c ∈ tokenText base64 bytes, c ∈ Base64.alphabet :=
    fun c => base64.mem_of_mem_encode
  have hlen : (tokenText base64 bytes).length = tokenTextLen := by
    rw [tokenText, base64.length_encode, Vector.length_toList]
    rfl
  simp only [isTokenText, Bool.and_eq_true, decide_eq_true_eq, asBytes_of_alphabet halph,
    List.length_map]
  refine ⟨⟨hlen, ?_⟩, ?_⟩
  · have hall : ∀ c ∈ Base64.alphabet,
        (fun b : UInt8 => isAsciiDigit b || (0x41 ≤ b && b ≤ 0x5A) || (0x61 ≤ b && b ≤ 0x7A) ||
          b = 0x2D || b = 0x5F) (UInt8.ofNat c.toNat) = true :=
      List.all_eq_true.mp (by decide)
    rw [List.all_map, List.all_eq_true]
    exact fun c hc => hall c (halph c hc)
  · rw [tokenText, base64.decode_encode]
    rfl

/-- Whether `a` equals `b`, without stopping at the first difference. -/
def ctEq (a b : Bytes) : Bool :=
  if a.length ≠ b.length then false
  else (a.zip b).foldl (fun acc x => acc ||| (x.1 ^^^ x.2)) 0 = 0

/-- The fold of `ctEq` ends in zero when it starts there and no pair differs, and only then. -/
theorem ctEq_fold (l : List (UInt8 × UInt8)) (acc : UInt8) :
    l.foldl (fun acc x => acc ||| (x.1 ^^^ x.2)) acc = 0 ↔ acc = 0 ∧ ∀ x ∈ l, x.1 = x.2 := by
  induction l generalizing acc with
  | nil => simp
  | cons x l ih =>
    rw [List.foldl_cons, ih, UInt8.or_eq_zero_iff, UInt8.xor_eq_zero_iff, List.forall_mem_cons,
      and_assoc]

theorem ctEq_iff {a b : Bytes} : ctEq a b = true ↔ a = b := by
  unfold ctEq
  split
  · rename_i h
    simp only [Bool.false_eq_true, false_iff]
    exact fun he => h (he ▸ rfl)
  · rename_i h
    rw [decide_eq_true_eq, ctEq_fold]
    refine ⟨fun ⟨_, hz⟩ => ?_, fun he => ⟨rfl, ?_⟩⟩
    · have hl : a.length = b.length := not_not.mp h
      refine List.ext_getElem hl fun i hi hj => ?_
      have hm : (a[i], b[i]) ∈ a.zip b := by
        rw [List.mem_iff_getElem]
        exact ⟨i, by rw [List.length_zip]; exact Nat.lt_min.mpr ⟨hi, hj⟩, by simp⟩
      exact hz _ hm
    · subst he
      intro x hx
      obtain ⟨i, hi, rfl⟩ := List.mem_iff_getElem.mp hx
      simp

end Kohaku
