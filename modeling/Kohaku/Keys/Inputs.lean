import Kohaku.Auth.Totp
import Kohaku.Encoding.Framed
import Kohaku.Routing.Hosts

/-!
# What the keys are computed from

`mac` feeds the label of the purpose and the fields to HMAC, each behind its length as a big-endian
`u32`. Two inputs are the same only for the same purpose and the same fields, so no two keys of the
program, the keycheck, a TOTP seed or the key of a mail bucket, are computed from one input
(`mac_inputs_separated`).
-/

namespace Kohaku

/-! ## Big-endian bytes -/

theorem length_beBytes (w n : Nat) : (beBytes w n).length = w := by
  rw [beBytes, List.length_map, List.length_reverse, List.length_range]

theorem beBytes_succ (w n : Nat) :
    beBytes (w + 1) n = UInt8.ofNat (n / 256 ^ w) :: beBytes w n := by
  rw [beBytes, List.range_succ, List.reverse_append, List.reverse_singleton, List.singleton_append,
    List.map_cons]
  rfl

/-- Reading the bytes from the left gives the number. -/
theorem foldl_beBytes (w n acc : Nat) : (beBytes w n).foldl (fun m b => m * 256 + b.toNat) acc =
    acc * 256 ^ w + n % 256 ^ w := by
  induction w generalizing acc with
  | zero => simp [beBytes, Nat.mod_one]
  | succ w ih =>
    have hsplit : n % 256 ^ (w + 1) = n % 256 ^ w + 256 ^ w * (n / 256 ^ w % 256) :=
      Nat.mod_pow_succ
    have hbyte : (UInt8.ofNat (n / 256 ^ w)).toNat = n / 256 ^ w % 256 := UInt8.toNat_ofNat'
    rw [beBytes_succ, List.foldl_cons, ih, hbyte, hsplit, Nat.pow_succ]
    ring

theorem beBytes_injective {w m n : Nat} (hm : m < 256 ^ w) (hn : n < 256 ^ w)
    (h : beBytes w m = beBytes w n) : m = n := by
  have hfold := congrArg (List.foldl (fun m b => m * 256 + b.toNat) 0) h
  rw [foldl_beBytes, foldl_beBytes, Nat.mod_eq_of_lt hm, Nat.mod_eq_of_lt hn] at hfold
  exact Nat.add_left_cancel hfold

/-- The values of an `i64`. -/
def IsI64 (n : Int) : Prop := -2 ^ 63 ≤ n ∧ n < 2 ^ 63

theorem i64BeBytes_injective {m n : Int} (hm : IsI64 m) (hn : IsI64 n)
    (h : i64BeBytes m = i64BeBytes n) : m = n := by
  obtain ⟨hm1, hm2⟩ := hm
  obtain ⟨hn1, hn2⟩ := hn
  have hmod := beBytes_injective (w := 8) (by omega) (by omega) h
  omega

/-! ## The input of a MAC -/

/-- A length as a big-endian `u32`. -/
def u32Header : Framed.Header UInt8 (2 ^ 32) where
  write := beBytes 4
  width := 4
  width_pos := by decide
  length_write := length_beBytes 4
  injective hm hn h := beBytes_injective (w := 4) hm hn h

theorem macInput_eq (purpose : Purpose) (fields : List Bytes) :
    macInput purpose fields = Framed.encode u32Header (asBytes purpose.label :: fields) := rfl

theorem Purpose.label_injective : Function.Injective Purpose.label := by
  intro p q h
  cases p <;> cases q <;> first | rfl | exact absurd h (by decide)

theorem Purpose.length_label (purpose : Purpose) : (asBytes purpose.label).length < 2 ^ 32 := by
  cases purpose <;> decide

/-- The purpose and the fields can be told from the input. -/
theorem macInput_injective {p q : Purpose} {xs ys : List Bytes} (hxs : ∀ x ∈ xs, x.length < 2 ^ 32)
    (hys : ∀ y ∈ ys, y.length < 2 ^ 32) (h : macInput p xs = macInput q ys) : p = q ∧ xs = ys := by
  rw [macInput_eq, macInput_eq] at h
  have hparts := Framed.encode_injective (List.forall_mem_cons.mpr ⟨p.length_label, hxs⟩)
    (List.forall_mem_cons.mpr ⟨q.length_label, hys⟩) h
  obtain ⟨hlabel, hfields⟩ := List.cons.inj hparts
  exact ⟨Purpose.label_injective (asBytes_injective hlabel), hfields⟩

/-! ## The keys -/

/-- The value stored in `meta.keycheck`. -/
def keycheck (C : Crypto) (secret : Bytes) : Vector UInt8 32 := mac C secret .keycheck []

namespace MailAddress

/-- Surrounding ASCII whitespace removed, ASCII-lowercased, any `+tag` removed from the local
part. -/
def normalize (address : Str) : Str :=
  let lower := (trimMatches isAsciiWhitespace address).map toAsciiLowercase
  match Routing.rsplitOnce '@' lower with
  | some (name, domain) => ((splitOnce '+' name).elim name Prod.fst) ++ '@' :: domain
  | none => lower

example : normalize " Victim+a+b@Ex+ample.org".toList =
    "victim@ex+ample.org".toList := by decide

/-- The key of the bucket of an address, under the key of this boot. -/
def bucketKey (C : Crypto) (bootKey : Bytes) (address : Str) : Vector UInt8 32 :=
  mac C bootKey .mailAddress [asBytes (normalize address)]

end MailAddress

/-- What a key of the program is for. -/
inductive KeyUse
  | keycheck
  | seed (userId : Int) (nonce : Bytes)
  /-- The bucket of a normalized address. -/
  | mailBucket (address : Str)
  deriving DecidableEq

namespace KeyUse

/-- The purpose of the key. -/
def purpose : KeyUse → Purpose
  | keycheck => .keycheck
  | seed .. => .totp
  | mailBucket _ => .mailAddress

/-- The fields that are authenticated with it. -/
def fields : KeyUse → List Bytes
  | keycheck => []
  | seed userId nonce => [i64BeBytes userId, nonce]
  | mailBucket address => [asBytes address]

/-- The bytes that the MAC is computed of. -/
def input (use : KeyUse) : Bytes := macInput use.purpose use.fields

/-- The account id is an `i64`, and nonce and address are shorter than 4 GiB. -/
def Valid : KeyUse → Prop
  | keycheck => True
  | seed userId nonce => IsI64 userId ∧ nonce.length < 2 ^ 32
  | mailBucket address => (asBytes address).length < 2 ^ 32

theorem Valid.fields_lt {use : KeyUse} (h : use.Valid) : ∀ x ∈ use.fields, x.length < 2 ^ 32 := by
  cases use with
  | keycheck => simp [fields]
  | seed userId nonce =>
    have hid : (i64BeBytes userId).length < 2 ^ 32 := by
      rw [i64BeBytes, length_beBytes]
      decide
    simpa [fields] using ⟨hid, h.2⟩
  | mailBucket address =>
    intro x hx
    rw [List.mem_singleton.mp hx]
    exact h

theorem input_injective {a b : KeyUse} (ha : a.Valid) (hb : b.Valid) (h : a.input = b.input) :
    a = b := by
  obtain ⟨hpurpose, hfields⟩ := macInput_injective ha.fields_lt hb.fields_lt h
  cases a with
  | keycheck =>
    cases b with
    | keycheck => rfl
    | seed | mailBucket => cases hpurpose
  | seed userId nonce =>
    cases b with
    | keycheck | mailBucket => cases hpurpose
    | seed userId' nonce' =>
      obtain ⟨hid, hrest⟩ := List.cons.inj hfields
      rw [i64BeBytes_injective ha.1 hb.1 hid, (List.cons.inj hrest).1]
  | mailBucket address =>
    cases b with
    | keycheck | seed => cases hpurpose
    | mailBucket address' => rw [asBytes_injective (List.cons.inj hfields).1]

end KeyUse

/-- Inputs of a MAC are equal only for the same purpose and the same fields. The keycheck, a seed
and the key of a mail bucket are computed from the inputs of their uses, and uses with one input are
one: the same purpose, account and nonce, or address. -/
theorem mac_inputs_separated :
    (∀ (p q : Purpose) (xs ys : List Bytes), (∀ x ∈ xs, x.length < 2 ^ 32) →
      (∀ y ∈ ys, y.length < 2 ^ 32) → macInput p xs = macInput q ys → p = q ∧ xs = ys) ∧
    (∀ a b : KeyUse, a.Valid → b.Valid → a.input = b.input → a = b) ∧
    ∀ (C : Crypto) (key : Bytes),
      keycheck C key = C.hmacSha256 key KeyUse.keycheck.input ∧
      (∀ (userId : Nat) (nonce : Bytes),
        deriveSeed C key userId nonce =
          (C.hmacSha256 key (KeyUse.seed userId nonce).input).toList.take seedBytes) ∧
      ∀ address, MailAddress.bucketKey C key address =
        C.hmacSha256 key (KeyUse.mailBucket (MailAddress.normalize address)).input :=
  ⟨fun _ _ _ _ => macInput_injective, fun _ _ => KeyUse.input_injective,
    fun _ _ => ⟨rfl, fun _ _ => rfl, fun _ => rfl⟩⟩

/-- Moving a byte from one field to the next changes the input. -/
theorem mac_inputs_separated_moved : macInput .totp [[1], []] ≠ macInput .totp [[], [1]] := by
  intro h
  have hfields := (mac_inputs_separated.1 _ _ _ _ (by decide) (by decide) h).2
  cases hfields

end Kohaku
