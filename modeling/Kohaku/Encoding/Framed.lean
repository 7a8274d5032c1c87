import Mathlib

/-!
# Length-prefixed parts

A list of strings written as one: each part behind its length. Where the lengths are written in a
fixed width and can be told apart, the parts can too, whatever they contain (`encode_injective`).
-/

namespace Framed

/-- How a length below `bound` is written. -/
structure Header (α : Type) (bound : Nat) where
  write : Nat → List α
  width : Nat
  width_pos : 0 < width
  length_write : ∀ n, (write n).length = width
  injective : ∀ {m n}, m < bound → n < bound → write m = write n → m = n

variable {α : Type} {bound : Nat}

/-- The parts, each behind its length. -/
def encode (H : Header α bound) (parts : List (List α)) : List α :=
  parts.flatMap fun part => H.write part.length ++ part

variable {H : Header α bound} {x y : List α} {xs ys : List (List α)}

theorem encode_cons : encode H (x :: xs) = H.write x.length ++ (x ++ encode H xs) := by
  rw [encode, List.flatMap_cons, List.append_assoc]
  rfl

theorem encode_cons_ne_nil : encode H (x :: xs) ≠ [] := by
  intro h
  rw [encode_cons, List.append_eq_nil_iff] at h
  have hlength := H.length_write x.length
  rw [h.1, List.length_nil] at hlength
  exact absurd hlength H.width_pos.ne

/-- The first part is where the first length says. -/
theorem cons_inj (hx : x.length < bound) (hy : y.length < bound)
    (h : encode H (x :: xs) = encode H (y :: ys)) : x = y ∧ encode H xs = encode H ys := by
  rw [encode_cons, encode_cons] at h
  obtain ⟨hheader, hrest⟩ := List.append_inj h (by rw [H.length_write, H.length_write])
  exact List.append_inj hrest (H.injective hx hy hheader)

/-- The parts can be told from what is written. -/
theorem encode_injective (hxs : ∀ x ∈ xs, x.length < bound) (hys : ∀ y ∈ ys, y.length < bound)
    (h : encode H xs = encode H ys) : xs = ys := by
  induction xs generalizing ys with
  | nil =>
    cases ys with
    | nil => rfl
    | cons y ys => exact absurd h.symm encode_cons_ne_nil
  | cons x xs ih =>
    cases ys with
    | nil => exact absurd h encode_cons_ne_nil
    | cons y ys =>
      rw [List.forall_mem_cons] at hxs hys
      obtain ⟨rfl, hrest⟩ := cons_inj hxs.1 hys.1 h
      rw [ih hxs.2 hys.2 hrest]

end Framed
