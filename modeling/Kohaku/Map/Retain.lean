import Mathlib

/-!
# Finite maps: length and retention

`AList` as a hash map with a bound on its length: `retain` keeps the entries whose value passes a
test, and the lemmas say how `insert` and `retain` change the number of keys.
-/

namespace AList

variable {α β : Type}

/-- The entries whose value passes the test. -/
def retain (p : β → Bool) (m : AList fun _ : α => β) : AList fun _ : α => β :=
  ⟨m.entries.filter fun e => p e.2, m.nodupKeys.sublist List.filter_sublist⟩

theorem length_keys_retain_le (p : β → Bool) (m : AList fun _ : α => β) :
    (m.retain p).keys.length ≤ m.keys.length := by
  simp only [keys, List.keys, List.length_map]
  exact List.length_filter_le _ _

variable [DecidableEq α]

theorem lookup_retain (p : β → Bool) (m : AList fun _ : α => β) (a : α) :
    (m.retain p).lookup a = (m.lookup a).filter p := by
  ext b
  change b ∈ lookup a (m.retain p) ↔ b ∈ (m.lookup a).filter p
  rw [mem_lookup_iff, Option.mem_filter_iff, mem_lookup_iff]
  exact List.mem_filter

theorem length_keys_insert (a : α) (b : β) (m : AList fun _ : α => β) :
    (m.insert a b).keys.length = m.keys.length + if a ∈ m then 0 else 1 := by
  rw [keys_insert, List.length_cons]
  split
  case isTrue h =>
    have := List.length_erase_add_one (mem_keys.mp h)
    omega
  case isFalse h => rw [List.erase_of_not_mem (mt mem_keys.mpr h)]

end AList
