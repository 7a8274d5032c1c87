import Mathlib

/-!
# Aligned blocks of bit vectors

The upper bits of a word, as a mask keeps them, are its quotient by a power of two. A word with no
bit set below the mask is the start of a block of consecutive numbers, and those are the words with
the same upper bits.
-/

namespace BitVec

variable {w : Nat} {x y : BitVec w} {k : Nat}

/-- All bits from `k` upwards. -/
def upper (w k : Nat) : BitVec w := allOnes w <<< k

theorem and_upper (x : BitVec w) (k : Nat) : x &&& upper w k = x >>> k <<< k := by
  ext i hi
  simp only [upper, getElem_and, getElem_shiftLeft, getElem_allOnes]
  by_cases hk : i < k
  · simp [hk]
  · simp [hk, Nat.add_sub_of_le (Nat.le_of_not_lt hk), getLsbD_eq_getElem hi]

theorem toNat_and_upper (x : BitVec w) (k : Nat) :
    (x &&& upper w k).toNat = x.toNat / 2 ^ k * 2 ^ k := by
  rw [and_upper, toNat_shiftLeft, toNat_ushiftRight, Nat.shiftLeft_eq, Nat.shiftRight_eq_div_pow]
  exact Nat.mod_eq_of_lt ((Nat.div_mul_le_self _ _).trans_lt x.isLt)

/-- Two words agree under the mask iff they have the same quotient. -/
theorem and_upper_eq_iff :
    x &&& upper w k = y &&& upper w k ↔ x.toNat / 2 ^ k = y.toNat / 2 ^ k := by
  rw [← toNat_inj, toNat_and_upper, toNat_and_upper, Nat.mul_left_inj (Nat.two_pow_pos k).ne']

/-- No bit is set below the mask iff the number is a multiple. -/
theorem and_not_upper_eq_zero_iff : x &&& ~~~upper w k = 0 ↔ x.toNat % 2 ^ k = 0 := by
  have hself : x &&& ~~~upper w k = 0 ↔ x &&& upper w k = x := by
    constructor
    · intro h
      ext i hi
      have hbit := congrArg (fun v : BitVec w => v[i]) h
      simp only [getElem_and, getElem_not, ofNat_eq_ofNat, getElem_zero] at hbit ⊢
      cases hx : x[i] <;> simp_all
    · intro h
      rw [← h, BitVec.and_assoc, BitVec.and_not_self]
      exact BitVec.and_zero
  rw [hself, ← toNat_inj, toNat_and_upper]
  have hdiv := Nat.div_add_mod x.toNat (2 ^ k)
  rw [Nat.mul_comm] at hdiv
  omega

/-- A word agrees with the start of a block iff it lies in the block. -/
theorem and_upper_eq_iff_mem (hx : x.toNat % 2 ^ k = 0) : x &&& upper w k = y &&& upper w k ↔
    x.toNat ≤ y.toNat ∧ y.toNat ≤ x.toNat + 2 ^ k - 1 := by
  have hpos := Nat.two_pow_pos k
  rw [and_upper_eq_iff]
  obtain ⟨q, hq⟩ := Nat.dvd_of_mod_eq_zero hx
  rw [hq, Nat.mul_div_cancel_left q hpos, eq_comm, Nat.div_eq_iff hpos, Nat.mul_comm q]

end BitVec
