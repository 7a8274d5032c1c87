import Kohaku.Sql.Table

/-!
# The first rows of an ordered selection

`ORDER BY … LIMIT n` over rows that the order tells apart. A row is among the first `n` iff fewer
than `n` rows come before it, which does not mention the sorted list.
-/

namespace Sql

variable {α : Type} {le : α → α → Bool} {l l' : List α} {a b : α} {n : Nat}

/-- The order is linear on the rows. -/
structure Ranks (le : α → α → Bool) (l : List α) : Prop where
  total : ∀ a b, le a b = true ∨ le b a = true
  trans : ∀ {a b c}, le a b = true → le b c = true → le a c = true
  antisymm : ∀ {a b}, a ∈ l → b ∈ l → le a b = true → le b a = true → a = b
  nodup : l.Nodup

namespace Ranks

theorem refl (H : Ranks le l) (a : α) : le a a = true := (H.total a a).elim id id

theorem le_of_not (H : Ranks le l) (h : le a b = false) : le b a = true := by
  rcases H.total a b with hab | hba
  · rw [h] at hab
    cases hab
  · exact hba

theorem pairwise (H : Ranks le l) :
    (orderBy le l).Pairwise fun a b => le a b = true ∧ le b a = false := by
  have hsorted : (orderBy le l).Pairwise fun a b => le a b = true :=
    @List.pairwise_insertionSort α (fun a b => le a b = true) _ ⟨H.total⟩ ⟨fun _ _ _ => H.trans⟩ l
  have hnodup : (orderBy le l).Nodup := (List.perm_insertionSort _ l).nodup_iff.mpr H.nodup
  refine (hsorted.and hnodup).imp_of_mem fun ha hb h => ⟨h.1, ?_⟩
  rw [← Bool.not_eq_true]
  exact fun hba => h.2 (H.antisymm (mem_orderBy.mp ha) (mem_orderBy.mp hb) h.1 hba)

end Ranks

/-- In a strictly ordered list the rows that do not come after `a` are those before it. -/
theorem mem_take_of_pairwise (hrefl : ∀ a, le a a = true) (n : Nat)
    (h : l.Pairwise fun a b => le a b = true ∧ le b a = false) :
    a ∈ l.take n ↔ a ∈ l ∧ l.countP (fun b => !le a b) < n := by
  induction l generalizing n with
  | nil => simp
  | cons x l ih =>
    obtain ⟨hx, hl⟩ := List.pairwise_cons.mp h
    cases n with
    | zero => simp
    | succ n =>
      rw [List.take_succ_cons, List.mem_cons, List.mem_cons, ih n hl]
      constructor
      · rintro (rfl | ⟨ha, hlt⟩)
        · refine ⟨.inl rfl, ?_⟩
          have hzero : (a :: l).countP (fun b => !le a b) = 0 := by
            rw [List.countP_eq_zero]
            intro b hb
            rcases List.mem_cons.mp hb with rfl | hb
            · simp [hrefl]
            · simp [(hx b hb).1]
          omega
        · rw [List.countP_cons_of_pos (by simp [(hx a ha).2])]
          exact ⟨.inr ha, Nat.succ_lt_succ hlt⟩
      · rintro ⟨rfl | ha, hlt⟩
        · exact .inl rfl
        · rw [List.countP_cons_of_pos (by simp [(hx a ha).2])] at hlt
          exact .inr ⟨ha, Nat.lt_of_succ_lt_succ hlt⟩

/-- The rows before `a`. -/
def rank (le : α → α → Bool) (l : List α) (a : α) : Nat := l.countP fun b => !le a b

namespace Ranks

theorem mem_take (H : Ranks le l) : a ∈ (orderBy le l).take n ↔ a ∈ l ∧ rank le l a < n := by
  have hcount : (orderBy le l).countP (fun b => !le a b) = rank le l a :=
    (List.perm_insertionSort _ l).countP_eq _
  rw [mem_take_of_pairwise H.refl n H.pairwise, mem_orderBy, hcount]

/-- `LIMIT n` leaves `n` rows, or all. -/
theorem length_filter_rank (H : Ranks le l) :
    (l.filter fun a => rank le l a < n).length = min n l.length := by
  have hperm : (l.filter fun a => rank le l a < n).Perm ((orderBy le l).take n) := by
    rw [List.perm_ext_iff_of_nodup (H.nodup.filter _)]
    · intro a
      rw [List.mem_filter, H.mem_take, decide_eq_true_eq]
    · exact ((List.perm_insertionSort _ l).nodup_iff.mpr H.nodup).sublist (List.take_sublist n _)
  rw [hperm.length_eq, List.length_take, length_orderBy]

/-- A new row that is among the first `n` pushes out as many others as are too many. -/
theorem length_filter_not_rank (H : Ranks le (l ++ [a])) (ha : rank le (l ++ [a]) a < n) :
    (l.filter fun b => ¬rank le (l ++ [a]) b < n).length = l.length + 1 - n := by
  have hlen := H.length_filter_rank (n := n)
  rw [List.filter_append, List.length_append, List.length_append, List.length_singleton] at hlen
  generalize rank le (l ++ [a]) = f at ha hlen ⊢
  have hsplit := List.length_eq_length_filter_add (l := l) fun b => f b < n
  simp only [decide_not]
  rw [List.filter_singleton, decide_eq_true ha, cond_true, List.length_singleton] at hlen
  omega

/-- Of more than two rows the last two. -/
theorem exists_two (H : Ranks le l) (ha : rank le l a < l.length - 2) :
    ∃ b c, b ∈ l ∧ c ∈ l ∧ b ≠ c ∧ l.length - 2 ≤ rank le l b ∧ l.length - 2 ≤ rank le l c := by
  have hsplit := List.length_eq_length_filter_add (l := l) fun b => rank le l b < l.length - 2
  rw [H.length_filter_rank] at hsplit
  have hlen : (l.filter fun b => !decide (rank le l b < l.length - 2)).length = 2 := by omega
  obtain ⟨b, c, hbc⟩ := List.length_eq_two.mp hlen
  have hmem : ∀ x ∈ [b, c], x ∈ l ∧ l.length - 2 ≤ rank le l x := by
    intro x hx
    rw [← hbc, List.mem_filter] at hx
    exact ⟨hx.1, by simpa using hx.2⟩
  have hne : b ≠ c := by
    have hnodup := H.nodup.filter fun b => !decide (rank le l b < l.length - 2)
    rw [hbc] at hnodup
    simpa using hnodup
  obtain ⟨hb, hb'⟩ := hmem b (by simp)
  obtain ⟨hc, hc'⟩ := hmem c (by simp)
  exact ⟨b, c, hb, hc, hne, hb', hc'⟩

/-- The rows before a row, those after it, and the row itself are all rows. -/
theorem rank_add_countP (H : Ranks le l) (ha : a ∈ l) :
    rank le l a + l.countP (fun b => !le b a) + 1 = l.length := by
  have hsplit : ∀ l' : List α, l'.countP (fun b => !le a b) + l'.countP (fun b => !le b a) +
      l'.countP (fun b => le a b && le b a) = l'.length := by
    intro l'
    induction l' with
    | nil => rfl
    | cons b l' ih =>
      have htotal := H.total a b
      simp only [List.countP_cons, List.length_cons]
      cases hab : le a b <;> cases hba : le b a <;> simp [hab, hba] at htotal ⊢ <;> omega
  have hself : l.countP (fun b => le a b && le b a) = 1 := by
    rw [List.countP_eq_length_filter, ← List.length_singleton (a := a)]
    refine ((List.perm_ext_iff_of_nodup (H.nodup.filter _) (List.nodup_singleton a)).mpr
      fun b => ?_).length_eq
    rw [List.mem_filter, List.mem_singleton, Bool.and_eq_true]
    constructor
    · exact fun hb => H.antisymm hb.1 ha hb.2.2 hb.2.1
    · rintro rfl
      exact ⟨ha, H.refl b, H.refl b⟩
  rw [rank, ← hsplit l, hself]

theorem rank_le (H : Ranks le l) (h : le a b = true) : rank le l a ≤ rank le l b := by
  apply List.countP_mono_left
  intro c _ hc
  rw [Bool.not_eq_true'] at hc ⊢
  rw [← Bool.not_eq_true] at hc ⊢
  exact fun hbc => hc (H.trans h hbc)

/-- A row among the first `n` comes before one that is not. -/
theorem lt_of_rank (H : Ranks le l) (ha : rank le l a < n) (hb : n ≤ rank le l b) :
    le b a = false := by
  rw [← Bool.not_eq_true]
  intro hba
  exact absurd (H.rank_le hba) (not_le.mpr (ha.trans_le hb))

end Ranks

end Sql
