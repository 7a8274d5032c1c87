import Mathlib

/-!
# Base64url without padding

The encoder and the strict decoder of RFC 4648 section 5: no padding characters, and the bits
of the last character that stand for no byte must be zero. `Engine` says what a program relies on of
such a pair, and `urlSafeNoPad` is the one that works on groups of three bytes and four characters:
`decode_encode` is the round trip, and no other text decodes to the same bytes (`encode_of_decode`).
-/

namespace Base64

/-- The 64 characters, by their values. -/
def alphabet : List Char :=
  "ABCDEFGHIJKLMNOPQRSTUVWXYZabcdefghijklmnopqrstuvwxyz0123456789-_".toList

/-- An encoder and a decoder of base64url without padding. -/
structure Engine where
  encode : List UInt8 → List Char
  decode : List Char → Option (List UInt8)
  mem_of_mem_encode : ∀ {bytes c}, c ∈ encode bytes → c ∈ alphabet
  length_encode : ∀ bytes, (encode bytes).length = (4 * bytes.length + 2) / 3
  decode_encode : ∀ bytes, decode (encode bytes) = some bytes
  /-- The decoder is strict: only the text that the encoder gives is taken. -/
  encode_of_decode : ∀ {text bytes}, decode text = some bytes → encode bytes = text

/-- The character of a six-bit value. -/
def charOf (n : Nat) : Char := alphabet.getD n 'A'

/-- The six-bit value of a character of the alphabet. -/
def valueOf (c : Char) : Option Nat := alphabet.idxOf? c

/-- Groups of three bytes as four characters each; what is left over as two or three. -/
def encode : List UInt8 → List Char
  | [] => []
  | [a] => [charOf (a.toNat / 4), charOf (a.toNat % 4 * 16)]
  | [a, b] =>
    [charOf (a.toNat / 4), charOf (a.toNat % 4 * 16 + b.toNat / 16), charOf (b.toNat % 16 * 4)]
  | a :: b :: c :: rest =>
    charOf (a.toNat / 4) :: charOf (a.toNat % 4 * 16 + b.toNat / 16) ::
      charOf (b.toNat % 16 * 4 + c.toNat / 64) :: charOf (c.toNat % 64) :: encode rest

/-- Groups of four characters as three bytes each; what is left over as one or two. -/
def decode : List Char → Option (List UInt8)
  | [] => some []
  | [_] => none
  | [x, y] => do
    let x ← valueOf x
    let y ← valueOf y
    if y % 16 = 0 then return [UInt8.ofNat (x * 4 + y / 16)] else none
  | [x, y, z] => do
    let x ← valueOf x
    let y ← valueOf y
    let z ← valueOf z
    if z % 4 = 0 then
      return [UInt8.ofNat (x * 4 + y / 16), UInt8.ofNat (y % 16 * 16 + z / 4)]
    else none
  | x :: y :: z :: w :: rest => do
    let x ← valueOf x
    let y ← valueOf y
    let z ← valueOf z
    let w ← valueOf w
    let bytes ← decode rest
    return UInt8.ofNat (x * 4 + y / 16) :: UInt8.ofNat (y % 16 * 16 + z / 4) ::
      UInt8.ofNat (z % 4 * 64 + w) :: bytes

theorem charOf_mem (n : Nat) : charOf n ∈ alphabet := by
  unfold charOf
  rw [List.getD_eq_getElem?_getD]
  cases h : alphabet[n]? with
  | none => decide
  | some c => exact List.mem_of_getElem? h

theorem valueOf_charOf {n : Nat} (h : n < 64) : valueOf (charOf n) = some n := by
  have hall : ∀ m : Fin 64, valueOf (charOf m) = some m.val := by decide +kernel
  exact hall ⟨n, h⟩

theorem mem_of_mem_encode {bytes : List UInt8} {c : Char} (h : c ∈ encode bytes) :
    c ∈ alphabet := by
  fun_induction encode bytes with
  | case1 => cases h
  | case2 a =>
    simp only [List.mem_cons, List.not_mem_nil, or_false] at h
    rcases h with rfl | rfl <;> exact charOf_mem _
  | case3 a b =>
    simp only [List.mem_cons, List.not_mem_nil, or_false] at h
    rcases h with rfl | rfl | rfl <;> exact charOf_mem _
  | case4 a b d rest ih =>
    simp only [List.mem_cons] at h
    rcases h with rfl | rfl | rfl | rfl | h
    on_goal 5 => exact ih h
    all_goals exact charOf_mem _

theorem length_encode (bytes : List UInt8) :
    (encode bytes).length = (4 * bytes.length + 2) / 3 := by
  fun_induction encode bytes with
  | case1 => rfl
  | case2 => simp
  | case3 => simp
  | case4 a b c rest ih =>
    simp only [List.length_cons, ih]
    omega

/-- Decoding undoes encoding. -/
theorem decode_encode (bytes : List UInt8) : decode (encode bytes) = some bytes := by
  -- a byte is put together again from the parts its neighbours' characters carry
  have byte : ∀ (a : UInt8) (n : Nat), n = a.toNat → UInt8.ofNat n = a := by
    rintro a _ rfl
    exact UInt8.ofNat_toNat
  fun_induction encode bytes with
  | case1 => rfl
  | case2 a =>
    have ha := a.toNat_lt
    simp only [decode, valueOf_charOf (n := a.toNat / 4) (by omega),
      valueOf_charOf (n := a.toNat % 4 * 16) (by omega), Option.bind_eq_bind, Option.bind_some]
    rw [if_pos (by omega), byte a _ (by omega)]
    rfl
  | case3 a b =>
    have ha := a.toNat_lt
    have hb := b.toNat_lt
    simp only [decode, valueOf_charOf (n := a.toNat / 4) (by omega),
      valueOf_charOf (n := a.toNat % 4 * 16 + b.toNat / 16) (by omega),
      valueOf_charOf (n := b.toNat % 16 * 4) (by omega), Option.bind_eq_bind, Option.bind_some]
    rw [if_pos (by omega), byte a _ (by omega), byte b _ (by omega)]
    rfl
  | case4 a b c rest ih =>
    have ha := a.toNat_lt
    have hb := b.toNat_lt
    have hc := c.toNat_lt
    simp only [decode, valueOf_charOf (n := a.toNat / 4) (by omega),
      valueOf_charOf (n := a.toNat % 4 * 16 + b.toNat / 16) (by omega),
      valueOf_charOf (n := b.toNat % 16 * 4 + c.toNat / 64) (by omega),
      valueOf_charOf (n := c.toNat % 64) (by omega), ih, Option.bind_eq_bind, Option.bind_some]
    rw [byte a _ (by omega), byte b _ (by omega), byte c _ (by omega)]
    rfl

theorem charOf_of_valueOf {c : Char} {n : Nat} (h : valueOf c = some n) :
    charOf n = c ∧ n < 64 := by
  have hall : ∀ c ∈ alphabet, charOf ((valueOf c).getD 0) = c ∧ (valueOf c).getD 0 < 64 :=
    List.forall_iff_forall_mem.mp (by decide)
  have hc : c ∈ alphabet := by
    rw [← List.isSome_idxOf?, ← valueOf, h]
    rfl
  simpa only [h, Option.getD_some] using hall c hc

/-- The text is the only one that decodes to the bytes. -/
theorem encode_of_decode {text : List Char} {bytes : List UInt8} (h : decode text = some bytes) :
    encode bytes = text := by
  have byte : ∀ n, n < 256 → (UInt8.ofNat n).toNat = n := fun n hn => UInt8.toNat_ofNat_of_lt hn
  fun_induction decode text generalizing bytes with
  | case1 =>
    cases h
    rfl
  | case2 => cases h
  | case3 x y =>
    simp only [Option.bind_eq_bind, Option.bind_eq_some_iff] at h
    obtain ⟨n, hx, m, hy, h⟩ := h
    obtain ⟨hx, hn⟩ := charOf_of_valueOf hx
    obtain ⟨hy, hm⟩ := charOf_of_valueOf hy
    split at h
    next hzero =>
      cases h
      rw [encode, byte _ (by omega)]
      have hfirst : (n * 4 + m / 16) / 4 = n := by omega
      have hsecond : (n * 4 + m / 16) % 4 * 16 = m := by omega
      rw [hfirst, hsecond, hx, hy]
    next => cases h
  | case4 x y z =>
    simp only [Option.bind_eq_bind, Option.bind_eq_some_iff] at h
    obtain ⟨n, hx, m, hy, k, hz, h⟩ := h
    obtain ⟨hx, hn⟩ := charOf_of_valueOf hx
    obtain ⟨hy, hm⟩ := charOf_of_valueOf hy
    obtain ⟨hz, hk⟩ := charOf_of_valueOf hz
    split at h
    next hzero =>
      cases h
      rw [encode, byte _ (by omega), byte _ (by omega)]
      have hfirst : (n * 4 + m / 16) / 4 = n := by omega
      have hsecond : (n * 4 + m / 16) % 4 * 16 + (m % 16 * 16 + k / 4) / 16 = m := by omega
      have hthird : (m % 16 * 16 + k / 4) % 16 * 4 = k := by omega
      rw [hfirst, hsecond, hthird, hx, hy, hz]
    next => cases h
  | case5 x y z w rest ih =>
    simp only [Option.bind_eq_bind, Option.bind_eq_some_iff] at h
    obtain ⟨n, hx, m, hy, k, hz, l, hw, bytes', hrest, h⟩ := h
    obtain ⟨hx, hn⟩ := charOf_of_valueOf hx
    obtain ⟨hy, hm⟩ := charOf_of_valueOf hy
    obtain ⟨hz, hk⟩ := charOf_of_valueOf hz
    obtain ⟨hw, hl⟩ := charOf_of_valueOf hw
    cases h
    rw [encode, byte _ (by omega), byte _ (by omega), byte _ (by omega), ih hrest]
    have hfirst : (n * 4 + m / 16) / 4 = n := by omega
    have hsecond : (n * 4 + m / 16) % 4 * 16 + (m % 16 * 16 + k / 4) / 16 = m := by omega
    have hthird : (m % 16 * 16 + k / 4) % 16 * 4 + (k % 4 * 64 + l) / 64 = k := by omega
    have hfourth : (k % 4 * 64 + l) % 64 = l := by omega
    rw [hfirst, hsecond, hthird, hfourth, hx, hy, hz, hw]

/-- The engine of these two functions. -/
def urlSafeNoPad : Engine where
  encode := encode
  decode := decode
  mem_of_mem_encode := mem_of_mem_encode
  length_encode := length_encode
  decode_encode := decode_encode
  encode_of_decode := encode_of_decode

end Base64
