import Kohaku.Basic

/-!
# RFC 4648 base32 without padding

`base32` keeps a `u16` buffer into which each byte is shifted; five bits are emitted while at
least five are pending, and what is left over is emitted in a last character.
-/

namespace Kohaku

/-- `ALPHABET`, the digits of RFC 4648. -/
def base32Alphabet : List Char := "ABCDEFGHIJKLMNOPQRSTUVWXYZ234567".toList

/-- The character of the low five bits. -/
def base32Char (value : UInt16) : Char := base32Alphabet.getD (value &&& 31).toNat 'A'

/-- The inner loop: with `bits + 5` bits pending the upper five are emitted. -/
def base32Drain (buffer : UInt16) : Nat → Str → Nat × Str
  | bits + 5, out => base32Drain buffer bits (out ++ [base32Char (buffer >>> bits.toUInt16)])
  | bits, out => (bits, out)

/-- The encoder's state: buffer, number of pending bits, output. -/
structure Base32State where
  buffer : UInt16
  bits : Nat
  out : Str

/-- The outer loop's body. -/
def base32Push (s : Base32State) (byte : UInt8) : Base32State :=
  let buffer := (s.buffer <<< 8) ||| byte.toUInt16
  let (bits, out) := base32Drain buffer (s.bits + 8) s.out
  ⟨buffer, bits, out⟩

/-- `base32`: the bytes are pushed one by one, and what is left over is filled up with zero bits. -/
def base32 (bytes : Bytes) : Str :=
  let s := bytes.foldl base32Push ⟨0, 0, []⟩
  if s.bits > 0 then s.out ++ [base32Char (s.buffer <<< (5 - s.bits).toUInt16)] else s.out

example : base32 (asBytes "foobar".toList) = "MZXW6YTBOI".toList := by decide

/-- A base32 digit: an ASCII uppercase letter or `2` to `7`. -/
def isBase32 (c : Char) : Bool := isAsciiUppercase c || ('2' ≤ c && c ≤ '7')

theorem isBase32_base32Char (v : UInt16) : isBase32 (base32Char v) = true := by
  have hall : ∀ c ∈ 'A' :: base32Alphabet, isBase32 c = true :=
    List.all_eq_true.mp (by decide)
  refine hall _ ?_
  unfold base32Char
  rw [List.getD_eq_getElem?_getD]
  cases h : base32Alphabet[(v &&& 31).toNat]? with
  | none => exact List.mem_cons_self
  | some c => exact List.mem_cons_of_mem _ (List.mem_of_getElem? h)

theorem toNat_lt_of_isBase32 {c : Char} (h : isBase32 c = true) : c.toNat < 0x80 := by
  rw [isBase32, isAsciiUppercase, Bool.or_eq_true, Bool.and_eq_true, Bool.and_eq_true,
    decide_eq_true_eq, decide_eq_true_eq] at h
  rcases h with h | h
  · exact (UInt32.le_iff_toNat_le.mp h.2).trans_lt (by decide)
  · exact (UInt32.le_iff_toNat_le.mp (of_decide_eq_true h.2)).trans_lt (by decide)

/-! ## Shape of the output -/

/-- Draining leaves fewer than five bits and emits the others five at a time. -/
theorem base32Drain_spec (buffer : UInt16) (bits : Nat) (out : Str) :
    (base32Drain buffer bits out).1 < 5 ∧
      5 * (base32Drain buffer bits out).2.length + (base32Drain buffer bits out).1 =
        5 * out.length + bits ∧
      ((∀ c ∈ out, isBase32 c = true) →
        ∀ c ∈ (base32Drain buffer bits out).2, isBase32 c = true) := by
  induction bits using Nat.strongRecOn generalizing out with
  | ind bits ih =>
    match bits with
    | n + 5 =>
      obtain ⟨hlt, hlen, hall⟩ := ih n (by omega) (out ++ [base32Char (buffer >>> n.toUInt16)])
      simp only [base32Drain]
      refine ⟨hlt, ?_, fun hout => hall ?_⟩
      · rw [hlen, List.length_append, List.length_singleton]
        omega
      · intro c hc
        rcases List.mem_append.mp hc with hc | hc
        · exact hout c hc
        · rw [List.mem_singleton.mp hc]
          exact isBase32_base32Char _
    | 0 | 1 | 2 | 3 | 4 => exact ⟨by simp [base32Drain], rfl, id⟩

/-- The loop invariant: after `n` bytes fewer than five bits are pending and all others were
emitted as base32 digits. -/
structure Base32State.Emitted (s : Base32State) (n : Nat) : Prop where
  pending : s.bits < 5
  emitted : 5 * s.out.length + s.bits = 8 * n
  digits : ∀ c ∈ s.out, isBase32 c = true

theorem Base32State.Emitted.push {s : Base32State} {n : Nat} (H : s.Emitted n) (byte : UInt8) :
    (base32Push s byte).Emitted (n + 1) := by
  have hspec := base32Drain_spec ((s.buffer <<< 8) ||| byte.toUInt16) (s.bits + 8) s.out
  have hsum := H.emitted
  refine ⟨hspec.1, ?_, hspec.2.2 H.digits⟩
  have := hspec.2.1
  simp only [base32Push]
  omega

theorem Base32State.Emitted.foldl {s : Base32State} {n : Nat} (H : s.Emitted n) (bytes : Bytes) :
    (bytes.foldl base32Push s).Emitted (n + bytes.length) := by
  induction bytes generalizing s n with
  | nil => exact H
  | cons byte bytes ih =>
    have := ih (H.push byte)
    rwa [List.length_cons, ← Nat.add_right_comm, Nat.add_assoc] at *

/-- The output is one digit for every five bits begun. -/
theorem base32_shape (bytes : Bytes) :
    (base32 bytes).length = (8 * bytes.length + 4) / 5 ∧
      ∀ c ∈ base32 bytes, isBase32 c = true := by
  have H : (bytes.foldl base32Push ⟨0, 0, []⟩).Emitted (0 + bytes.length) :=
    Base32State.Emitted.foldl ⟨by decide, rfl, by simp⟩ bytes
  rw [Nat.zero_add] at H
  have h₁ := H.pending
  have h₂ := H.emitted
  simp only [base32]
  split
  · refine ⟨by rw [List.length_append, List.length_singleton]; omega, fun c hc => ?_⟩
    rcases List.mem_append.mp hc with hc | hc
    · exact H.digits c hc
    · rw [List.mem_singleton.mp hc]
      exact isBase32_base32Char _
  · exact ⟨by omega, H.digits⟩

end Kohaku
