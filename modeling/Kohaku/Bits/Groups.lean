import Mathlib

/-!
# Bit strings in groups

Numbers as bit strings, most significant bit first, and the encodings of RFC 4648 in general: a bit
string is extended by zeros to whole groups, and each group is written as the digit of its number.
Strings of one length have one encoding only if they are the same (`encode_injective`).
-/

namespace BitString

/-! ## Numbers -/

/-- The low `w` bits of a number, most significant first. -/
def bits : Nat → Nat → List Bool
  | 0, _ => []
  | w + 1, n => n.testBit w :: bits w n

/-- The number of a bit string. -/
def value : List Bool → Nat
  | [] => 0
  | b :: bs => b.toNat * 2 ^ bs.length + value bs

variable {v w m n k : Nat} {bs bs' : List Bool}

@[simp] theorem length_bits (w n : Nat) : (bits w n).length = w := by
  induction w with
  | zero => rfl
  | succ w ih => rw [bits, List.length_cons, ih]

theorem bits_congr (h : ∀ i < w, m.testBit i = n.testBit i) : bits w m = bits w n := by
  induction w with
  | zero => rfl
  | succ w ih =>
    rw [bits, bits, h w (Nat.lt_succ_self w), ih fun i hi => h i (Nat.lt_succ_of_lt hi)]

/-- The upper bits stand before the lower ones. -/
theorem bits_add (v w n : Nat) : bits (v + w) n = bits v (n / 2 ^ w) ++ bits w n := by
  induction v with
  | zero => rw [Nat.zero_add, bits, List.nil_append]
  | succ v ih =>
    rw [Nat.succ_add_eq_add_succ, Nat.add_succ, bits, ih, bits, Nat.testBit_div_two_pow,
      List.cons_append]

theorem bits_mod (h : w ≤ v) (n : Nat) : bits w (n % 2 ^ v) = bits w n := by
  apply bits_congr
  intro i hi
  rw [Nat.testBit_mod_two_pow, decide_eq_true (hi.trans_le h), Bool.true_and]

theorem value_bits (w n : Nat) : value (bits w n) = n % 2 ^ w := by
  induction w with
  | zero => rw [bits, value, Nat.pow_zero, Nat.mod_one]
  | succ w ih =>
    rw [bits, value, length_bits, ih, Nat.toNat_testBit, Nat.mod_pow_succ, Nat.mul_comm,
      Nat.add_comm]

theorem value_lt (bs : List Bool) : value bs < 2 ^ bs.length := by
  induction bs with
  | nil => exact Nat.one_pos
  | cons b bs ih =>
    have hb : b.toNat ≤ 1 := Bool.toNat_le b
    rw [value, List.length_cons, Nat.pow_succ]
    nlinarith

theorem value_append_zeros (bs : List Bool) (k : Nat) :
    value (bs ++ List.replicate k false) = value bs * 2 ^ k := by
  induction bs with
  | nil =>
    induction k with
    | zero => rfl
    | succ k ih => simpa [List.replicate_succ, value] using ih
  | cons b bs ih =>
    rw [List.cons_append, value, ih, value, List.length_append, List.length_replicate, Nat.pow_add]
    ring

theorem bits_value (bs : List Bool) : bits bs.length (value bs) = bs := by
  induction bs with
  | nil => rfl
  | cons b bs ih =>
    have hlt := value_lt bs
    have hfirst : (value (b :: bs)).testBit bs.length = b := by
      rw [value, Nat.testBit_eq_decide_div_mod_eq, Nat.add_comm,
        Nat.add_mul_div_right _ _ (Nat.two_pow_pos _), Nat.div_eq_of_lt hlt, Nat.zero_add]
      cases b <;> rfl
    have hrest : bits bs.length (value (b :: bs)) = bits bs.length (value bs) := by
      rw [← bits_mod (le_refl _) (value (b :: bs)), value, Nat.mul_add_mod_of_lt hlt]
    rw [List.length_cons, bits, hfirst, hrest, ih]

theorem value_injective (hlength : bs.length = bs'.length) (h : value bs = value bs') :
    bs = bs' := by
  rw [← bits_value bs, ← bits_value bs', hlength, h]

/-! ## Groups -/

/-- The whole groups of `k` bits, from the front. -/
def groups (k : Nat) (bs : List Bool) : List (List Bool) :=
  (List.range (bs.length / k)).map fun i => (bs.drop (k * i)).take k

/-- Zeros behind the string, up to a multiple of `k`. -/
def extend (k : Nat) (bs : List Bool) : List Bool :=
  bs ++ List.replicate ((k - bs.length % k) % k) false

/-- The digit of each group. -/
def encode {γ : Type} (k : Nat) (digit : Nat → γ) (bs : List Bool) : List γ :=
  (groups k (extend k bs)).map fun group => digit (value group)

section
variable {γ : Type} {digit : Nat → γ} {g : List Bool} {gs gs' : List (List Bool)}

@[simp] theorem groups_nil : groups k [] = [] := by
  rw [groups, List.length_nil, Nat.zero_div, List.range_zero, List.map_nil]

theorem groups_append (hk : 0 < k) (hg : g.length = k) (bs : List Bool) :
    groups k (g ++ bs) = g :: groups k bs := by
  subst hg
  have hcount : (g ++ bs).length / g.length = bs.length / g.length + 1 := by
    rw [List.length_append, Nat.add_div_left _ hk]
  rw [groups, hcount, List.range_succ_eq_map, List.map_cons, List.map_map, Nat.mul_zero,
    List.drop_zero, List.take_left]
  congr 1
  apply List.map_congr_left
  intro i _
  simp only [Function.comp_apply]
  rw [Nat.mul_succ, Nat.add_comm, List.drop_length_add_append]

theorem groups_flatten_append (hk : 0 < k) (h : ∀ g ∈ gs, g.length = k) (bs : List Bool) :
    groups k (gs.flatten ++ bs) = gs ++ groups k bs := by
  induction gs with
  | nil => rfl
  | cons g gs ih =>
    rw [List.forall_mem_cons] at h
    rw [List.flatten_cons, List.append_assoc, groups_append hk h.1, ih h.2, List.cons_append]

/-- A string of a multiple of `k` bits is made of groups. -/
theorem exists_flatten_eq {q : Nat} (h : bs.length = k * q) :
    ∃ gs : List (List Bool), (∀ g ∈ gs, g.length = k) ∧ gs.flatten = bs := by
  induction q generalizing bs with
  | zero =>
    rw [Nat.mul_zero, List.length_eq_zero_iff] at h
    exact ⟨[], List.forall_mem_nil _, h.symm⟩
  | succ q ih =>
    rw [Nat.mul_succ] at h
    obtain ⟨gs, hlength, hflatten⟩ :=
      @ih (bs.drop k) (by rw [List.length_drop, h, Nat.add_sub_cancel])
    refine ⟨bs.take k :: gs, List.forall_mem_cons.mpr ⟨?_, hlength⟩, ?_⟩
    · rw [List.length_take, h]
      exact Nat.min_eq_left (Nat.le_add_left _ _)
    · rw [List.flatten_cons, hflatten, List.take_append_drop]

theorem length_flatten_of_forall (h : ∀ g ∈ gs, g.length = k) :
    gs.flatten.length = k * gs.length := by
  rw [List.length_flatten, List.map_congr_left h, List.map_const', List.sum_replicate, smul_eq_mul,
    Nat.mul_comm]

theorem dvd_length_extend (hk : 0 < k) (bs : List Bool) : k ∣ (extend k bs).length := by
  have hsum : bs.length + (k - bs.length % k) = k * (bs.length / k + 1) := by
    have hdiv := Nat.div_add_mod bs.length k
    have hlt := Nat.mod_lt bs.length hk
    rw [Nat.mul_succ]
    omega
  rw [extend, List.length_append, List.length_replicate, Nat.dvd_iff_mod_eq_zero, Nat.add_mod_mod,
    hsum, Nat.mul_mod_right]

theorem extend_flatten_append (h : ∀ g ∈ gs, g.length = k) (bs : List Bool) :
    extend k (gs.flatten ++ bs) = gs.flatten ++ extend k bs := by
  rw [extend, extend, List.length_append, length_flatten_of_forall h, Nat.mul_add_mod,
    List.append_assoc]

/-- The groups of an extended string are whole and make up the string. -/
theorem groups_extend (hk : 0 < k) (bs : List Bool) :
    (∀ g ∈ groups k (extend k bs), g.length = k) ∧ (groups k (extend k bs)).flatten =
      extend k bs := by
  obtain ⟨q, hq⟩ := dvd_length_extend hk bs
  obtain ⟨gs, hlength, hflatten⟩ := exists_flatten_eq hq
  have hgroups : groups k (extend k bs) = gs := by
    rw [← hflatten, ← List.append_nil gs.flatten, groups_flatten_append hk hlength, groups_nil,
      List.append_nil]
  rw [hgroups]
  exact ⟨hlength, hflatten⟩

/-! ## Encoding -/

/-- Whole groups in front are encoded one by one. -/
theorem encode_flatten_append (hk : 0 < k) (h : ∀ g ∈ gs, g.length = k) (bs : List Bool) :
    encode k digit (gs.flatten ++ bs) = (gs.map fun group => digit (value group)) ++
      encode k digit bs := by
  rw [encode, extend_flatten_append h, groups_flatten_append hk h, List.map_append, encode]

@[simp] theorem encode_nil : encode k digit [] = [] := by
  simp [encode, groups, extend]

/-- A group begun is filled up from below. -/
theorem encode_of_length_lt (hpos : 0 < bs.length) (hlt : bs.length < k) :
    encode k digit bs = [digit (value bs * 2 ^ (k - bs.length))] := by
  have hextend : extend k bs = bs ++ List.replicate (k - bs.length) false := by
    rw [extend, Nat.mod_eq_of_lt hlt, Nat.mod_eq_of_lt (Nat.sub_lt (hpos.trans hlt) hpos)]
  have hlength : (bs ++ List.replicate (k - bs.length) false).length = k := by
    rw [List.length_append, List.length_replicate, Nat.add_sub_of_le hlt.le]
  have hgroups : groups k (extend k bs) = [bs ++ List.replicate (k - bs.length) false] := by
    rw [hextend, ← List.append_nil (bs ++ _), groups_append (hpos.trans hlt) hlength,
      List.append_nil, groups_nil]
  rw [encode, hgroups, List.map_singleton, value_append_zeros]

/-- Groups are read back from their digits. -/
theorem map_digit_injective (hdigit : ∀ m < 2 ^ k, ∀ n < 2 ^ k, digit m = digit n → m = n)
    (h : ∀ g ∈ gs, g.length = k) (h' : ∀ g ∈ gs', g.length = k)
    (heq : (gs.map fun group => digit (value group)) = gs'.map fun group => digit (value group)) :
    gs = gs' := by
  induction gs generalizing gs' with
  | nil => exact (List.map_eq_nil_iff.mp heq.symm).symm
  | cons g gs ih =>
    cases gs' with
    | nil => exact absurd heq (List.cons_ne_nil _ _)
    | cons g' gs' =>
      rw [List.forall_mem_cons] at h h'
      rw [List.map_cons, List.map_cons, List.cons.injEq] at heq
      have hvalue := hdigit _ (h.1 ▸ value_lt g) _ (h'.1 ▸ value_lt g') heq.1
      rw [value_injective (h.1.trans h'.1.symm) hvalue, ih h.2 h'.2 heq.2]

/-- An encoding with different digits is injective on the strings of one length. -/
theorem encode_injective (hk : 0 < k) (hdigit : ∀ m < 2 ^ k, ∀ n < 2 ^ k, digit m = digit n → m = n)
    (hlength : bs.length = bs'.length) (h : encode k digit bs = encode k digit bs') : bs = bs' := by
  obtain ⟨hgroups, hflatten⟩ := groups_extend hk bs
  obtain ⟨hgroups', hflatten'⟩ := groups_extend hk bs'
  have hextend : extend k bs = extend k bs' := by
    rw [← hflatten, map_digit_injective hdigit hgroups hgroups' h, hflatten']
  exact (List.append_inj hextend hlength).1

end

end BitString
