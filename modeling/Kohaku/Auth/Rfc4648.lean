import Kohaku.Auth.Base32
import Kohaku.Bits.Groups

/-!
# `base32` is the encoding of RFC 4648

The loop's `u16` keeps bits that were emitted long ago above the ones still pending, and loses them
to the left as it goes. The invariant `Base32State.Encodes` says what is left of the input: whole
groups, which are the output, and the low `bits` bits of the buffer.
-/

namespace Kohaku

/-- The bytes as one bit string, most significant bits first. -/
def bitString (bytes : Bytes) : List Bool := bytes.flatMap fun byte => BitString.bits 8 byte.toNat

/-- The digit of a group of five bits. -/
def base32Digit (n : Nat) : Char := base32Alphabet.getD n 'A'

/-- RFC 4648 base32 without padding characters. -/
def rfc4648Base32 (bytes : Bytes) : Str := BitString.encode 5 base32Digit (bitString bytes)

theorem length_bitString (bytes : Bytes) : (bitString bytes).length = 8 * bytes.length := by
  rw [bitString, List.length_flatMap, List.map_congr_left fun _ _ => BitString.length_bits 8 _,
    List.map_const', List.sum_replicate, smul_eq_mul, Nat.mul_comm]

theorem bitString_injective {bytes bytes' : Bytes} (h : bitString bytes = bitString bytes') :
    bytes = bytes' := by
  have hlength := congrArg List.length h
  rw [length_bitString, length_bitString, Nat.mul_right_inj (by decide)] at hlength
  induction bytes generalizing bytes' with
  | nil => exact (List.length_eq_zero_iff.mp hlength.symm).symm
  | cons byte bytes ih =>
    cases bytes' with
    | nil => exact absurd hlength (Nat.succ_ne_zero _)
    | cons byte' bytes' =>
      rw [bitString, bitString, List.flatMap_cons, List.flatMap_cons] at h
      obtain ⟨hbits, hrest⟩ :=
        List.append_inj h (by rw [BitString.length_bits, BitString.length_bits])
      have hbyte := congrArg BitString.value hbits
      rw [BitString.value_bits, BitString.value_bits, Nat.mod_eq_of_lt byte.toNat_lt,
        Nat.mod_eq_of_lt byte'.toNat_lt] at hbyte
      rw [UInt8.toNat_inj.mp hbyte, ih hrest (Nat.succ_inj.mp hlength)]

theorem base32Digit_injective :
    ∀ m < 2 ^ 5, ∀ n < 2 ^ 5, base32Digit m = base32Digit n → m = n := by
  decide

theorem base32Char_eq (v : UInt16) : base32Char v = base32Digit (v.toNat % 2 ^ 5) := by
  rw [base32Char, base32Digit, UInt16.toNat_and]
  exact congrArg (base32Alphabet.getD · 'A') (Nat.and_two_pow_sub_one_eq_mod v.toNat 5)

/-! ## The loop -/

/-- Shifting a byte in keeps up to eight pending bits, and the byte's own stand below them. -/
theorem bits_shift_byte {pending : Nat} (hpending : pending ≤ 8) (buffer : UInt16) (byte : UInt8) :
    BitString.bits (pending + 8) ((buffer <<< 8) ||| byte.toUInt16).toNat =
      BitString.bits pending buffer.toNat ++ BitString.bits 8 byte.toNat := by
  have hvalue : ((buffer <<< 8) ||| byte.toUInt16).toNat =
      (buffer.toNat <<< 8 % 2 ^ 16) ||| byte.toNat := by
    rw [UInt16.toNat_or, UInt16.toNat_shiftLeft, UInt8.toNat_toUInt16]
    rfl
  have hbyte : ∀ i, 8 ≤ i → byte.toNat.testBit i = false := fun i hi =>
    Nat.testBit_lt_two_pow (byte.toNat_lt.trans_le (Nat.pow_le_pow_right (by decide) hi))
  rw [hvalue, BitString.bits_add]
  congr 1
  · apply BitString.bits_congr
    intro i hi
    rw [Nat.testBit_div_two_pow, Nat.testBit_or, hbyte _ (Nat.le_add_left 8 i),
      Nat.testBit_mod_two_pow, Nat.testBit_shiftLeft, Nat.add_sub_cancel,
      decide_eq_true (Nat.le_add_left 8 i),
      decide_eq_true (Nat.add_lt_add_right (hi.trans_le hpending) 8), Bool.true_and, Bool.true_and,
      Bool.or_false]
  · apply BitString.bits_congr
    intro i hi
    rw [Nat.testBit_or, Nat.testBit_mod_two_pow, Nat.testBit_shiftLeft]
    simp [hi]

/-- The inner loop emits whole groups of the pending bits, from the front. -/
theorem base32Drain_groups (buffer : UInt16) {bits : Nat} (hbits : bits ≤ 16) (out : Str) :
    ∃ gs : List (List Bool), (∀ g ∈ gs, g.length = 5) ∧
      (base32Drain buffer bits out).2 = out ++ gs.map (fun g => base32Digit (BitString.value g)) ∧
      gs.flatten ++ BitString.bits (base32Drain buffer bits out).1 buffer.toNat =
        BitString.bits bits buffer.toNat := by
  induction bits using Nat.strongRecOn generalizing out with
  | ind bits ih =>
    match bits with
    | n + 5 =>
      obtain ⟨gs, hlength, hout, hflatten⟩ :=
        ih n (by omega) (by omega) (out ++ [base32Char (buffer >>> n.toUInt16)])
      have hchar : base32Char (buffer >>> n.toUInt16) =
          base32Digit (BitString.value (BitString.bits 5 (buffer.toNat / 2 ^ n))) := by
        have hn : n.toUInt16.toNat % 16 = n := by
          rw [Nat.toUInt16, UInt16.toNat_ofNat']
          omega
        rw [base32Char_eq, BitString.value_bits, UInt16.toNat_shiftRight, hn,
          Nat.shiftRight_eq_div_pow]
      refine ⟨BitString.bits 5 (buffer.toNat / 2 ^ n) :: gs,
        List.forall_mem_cons.mpr ⟨BitString.length_bits 5 _, hlength⟩, ?_, ?_⟩
      · rw [base32Drain, hout, hchar, List.map_cons, List.append_assoc, List.singleton_append]
      · rw [base32Drain, List.flatten_cons, List.append_assoc, hflatten, Nat.add_comm n 5,
          BitString.bits_add]
    | 0 | 1 | 2 | 3 | 4 => exact ⟨[], List.forall_mem_nil _, (List.append_nil out).symm, rfl⟩

/-- The loop invariant: the output is the encoding of whole groups, the rest of the input is in the
buffer. -/
structure Base32State.Encodes (s : Base32State) (bs : List Bool) : Prop where
  pending : s.bits < 5
  groups : ∃ gs : List (List Bool), (∀ g ∈ gs, g.length = 5) ∧
    s.out = gs.map (fun g => base32Digit (BitString.value g)) ∧
    gs.flatten ++ BitString.bits s.bits s.buffer.toNat = bs

theorem Base32State.Encodes.push {s : Base32State} {bs : List Bool} (H : s.Encodes bs)
    (byte : UInt8) : (base32Push s byte).Encodes (bs ++ BitString.bits 8 byte.toNat) := by
  obtain ⟨gs, hlength, hout, rfl⟩ := H.groups
  have hpending := H.pending
  have hfit : s.bits + 8 ≤ 16 := by omega
  obtain ⟨gs', hlength', hout', hflatten'⟩ :=
    base32Drain_groups ((s.buffer <<< 8) ||| byte.toUInt16) hfit s.out
  refine ⟨(base32Drain_spec _ _ _).1, gs ++ gs', ?_, ?_, ?_⟩
  · intro g hg
    exact (List.mem_append.mp hg).elim (hlength g) (hlength' g)
  · simp only [base32Push]
    rw [hout', hout, List.map_append]
  · simp only [base32Push]
    rw [List.flatten_append, List.append_assoc, hflatten', bits_shift_byte (by omega),
      List.append_assoc]

theorem Base32State.Encodes.foldl {s : Base32State} {bs : List Bool} (H : s.Encodes bs)
    (bytes : Bytes) : (bytes.foldl base32Push s).Encodes (bs ++ bitString bytes) := by
  induction bytes generalizing s bs with
  | nil => rwa [bitString, List.flatMap_nil, List.append_nil]
  | cons byte bytes ih =>
    rw [bitString, List.flatMap_cons, ← List.append_assoc]
    exact ih (H.push byte)

/-- The encoder's state after some bytes. -/
theorem encodes_foldl (bytes : Bytes) :
    (bytes.foldl base32Push ⟨0, 0, []⟩).Encodes (bitString bytes) :=
  Base32State.Encodes.foldl ⟨by decide, [], List.forall_mem_nil _, rfl, rfl⟩ bytes

/-- What the output does not cover yet is pending. -/
theorem Base32State.Encodes.drop_append {s : Base32State} {bs : List Bool} (H : s.Encodes bs)
    (bs' : List Bool) :
    (bs ++ bs').drop (5 * s.out.length) = BitString.bits s.bits s.buffer.toNat ++ bs' := by
  obtain ⟨gs, hlength, hout, rfl⟩ := H.groups
  rw [hout, List.length_map, ← BitString.length_flatten_of_forall hlength, List.append_assoc,
    List.drop_left]

/-! ## The encoding -/

/-- The last character is the group begun, filled up with zeros. -/
theorem base32Char_shiftLeft {bits : Nat} (hpos : 0 < bits) (hlt : bits < 5) (buffer : UInt16) :
    base32Char (buffer <<< (5 - bits).toUInt16) =
      base32Digit (BitString.value (BitString.bits bits buffer.toNat) * 2 ^ (5 - bits)) := by
  have hn : (5 - bits).toUInt16.toNat % 16 = 5 - bits := by
    rw [Nat.toUInt16, UInt16.toNat_ofNat']
    omega
  have hpow : 2 ^ bits * 2 ^ (5 - bits) = 2 ^ 5 := by rw [← Nat.pow_add, Nat.add_sub_of_le hlt.le]
  rw [base32Char_eq, UInt16.toNat_shiftLeft, hn, BitString.value_bits, Nat.shiftLeft_eq,
    Nat.mod_mod_of_dvd _ (Nat.pow_dvd_pow 2 (by decide)), ← hpow, Nat.mul_mod_mul_right]

theorem base32_eq (bytes : Bytes) : base32 bytes = rfc4648Base32 bytes := by
  have H := encodes_foldl bytes
  obtain ⟨gs, hlength, hout, hflatten⟩ := H.groups
  rw [rfc4648Base32, ← hflatten, BitString.encode_flatten_append (by decide) hlength,
    ← hout, base32]
  split
  next hpos =>
    rw [BitString.encode_of_length_lt (by rwa [BitString.length_bits])
      (by rw [BitString.length_bits]; exact H.pending), BitString.length_bits,
      base32Char_shiftLeft hpos H.pending]
  next hzero =>
    rw [Nat.eq_zero_of_not_pos hzero, BitString.bits, BitString.encode_nil, List.append_nil]

theorem base32_injective {bytes bytes' : Bytes} (h : base32 bytes = base32 bytes') :
    bytes = bytes' := by
  have hcount := congrArg List.length h
  rw [(base32_shape bytes).1, (base32_shape bytes').1] at hcount
  have hlength : bytes.length = bytes'.length := by omega
  rw [base32_eq, base32_eq] at h
  refine bitString_injective (BitString.encode_injective (by decide) base32Digit_injective ?_ h)
  rw [length_bitString, length_bitString, hlength]

/-- `base32` is the unpadded encoding of RFC 4648, of one character for every five bits begun, and
different bytes have different encodings. At every byte of the input, the bits not yet emitted are
the low `s.bits` of the buffer, and all of them are in the buffer, above the byte, after it is
shifted in. -/
theorem base32_rfc4648 :
    (∀ bytes : Bytes, base32 bytes = rfc4648Base32 bytes ∧ (base32 bytes).length =
      8 * bytes.length ⌈/⌉ 5) ∧ Function.Injective base32 ∧
      ∀ (before : Bytes) (byte : UInt8), let s := before.foldl base32Push ⟨0, 0, []⟩
        let s' := base32Push s byte
        BitString.bits s.bits s.buffer.toNat = (bitString before).drop (5 * s.out.length) ∧
          s.bits + 8 ≤ 16 ∧
          BitString.bits (s.bits + 8) s'.buffer.toNat =
            (bitString (before ++ [byte])).drop (5 * s.out.length) := by
  refine ⟨fun bytes => ⟨base32_eq bytes, ?_⟩, fun _ _ h => base32_injective h,
    fun before byte => ?_⟩
  · rw [(base32_shape bytes).1, Nat.ceilDiv_eq_add_pred_div]
    rfl
  · have H := encodes_foldl before
    have hpending := H.pending
    refine ⟨?_, by omega, ?_⟩
    · have hdrop := H.drop_append []
      rw [List.append_nil, List.append_nil] at hdrop
      exact hdrop.symm
    · have happend : bitString (before ++ [byte]) = bitString before ++
          BitString.bits 8 byte.toNat := by
        rw [bitString, List.flatMap_append, List.flatMap_singleton, bitString]
      rw [happend, H.drop_append]
      exact bits_shift_byte (by omega) _ byte

end Kohaku
