import Mathlib

/-!
# Items handed out under permits

There are as many permits as items. A holder may have permits that it does not use yet, but no item
without a permit of its own. In such a ledger a holder with a permit to spare always finds an item
(`Balanced.free_ne_nil`), however many holders there are and whatever they hold.
-/

namespace Pool

/-- What one holder has. -/
structure Holding (γ : Type) where
  permits : Nat
  items : List γ

/-- What is there and what is out. -/
structure Ledger (γ : Type) where
  available : Nat
  free : List γ
  holdings : List (Holding γ)

variable {γ : Type} {L : Ledger γ} {stock : List γ} {h h' : Holding γ}

/-- No permit and no item of the stock is lost or held twice, and each item that is out is covered
by a permit. -/
structure Ledger.Balanced (L : Ledger γ) (stock : List γ) : Prop where
  permits : L.available + (L.holdings.map Holding.permits).sum = stock.length
  items : (L.free ++ L.holdings.flatMap Holding.items).Perm stock
  covered : ∀ h ∈ L.holdings, h.items.length ≤ h.permits

namespace Ledger.Balanced

theorem start (stock : List γ) : (⟨stock.length, stock, []⟩ : Ledger γ).Balanced stock where
  permits := rfl
  items := by rw [List.flatMap_nil, List.append_nil]
  covered := List.forall_mem_nil _

theorem length_items (H : L.Balanced stock) :
    L.free.length + (L.holdings.map fun h => h.items.length).sum = stock.length := by
  rw [← H.items.length_eq, List.length_append, List.length_flatMap]

/-- A permit to spare is a free item. -/
theorem free_ne_nil (H : L.Balanced stock) (hmem : h ∈ L.holdings)
    (hspare : h.items.length < h.permits) : L.free ≠ [] := by
  intro hnil
  have hlt : (L.holdings.map fun h => h.items.length).sum < (L.holdings.map Holding.permits).sum :=
    List.sum_lt_sum _ _ H.covered ⟨h, hmem, hspare⟩
  have hitems := H.length_items
  have hpermits := H.permits
  rw [hnil, List.length_nil] at hitems
  omega

/-- There are no more holders of items than items. -/
theorem countP_le (H : L.Balanced stock) :
    L.holdings.countP (fun h => !h.items.isEmpty) ≤ stock.length := by
  have hcount : ∀ holdings : List (Holding γ),
      holdings.countP (fun h => !h.items.isEmpty) ≤ (holdings.map fun h => h.items.length).sum := by
    intro holdings
    induction holdings with
    | nil => exact Nat.le_refl 0
    | cons h holdings ih =>
      rw [List.countP_cons, List.map_cons, List.sum_cons]
      cases hitems : h.items with
      | nil => simpa using ih
      | cons item items =>
        simp only [List.isEmpty_cons, Bool.not_false, if_true, List.length_cons]
        omega
  have hitems := H.length_items
  have hholdings := hcount L.holdings
  omega

/-- When nothing is out, everything is there. -/
theorem perm_of_items_nil (H : L.Balanced stock) (hnil : ∀ h ∈ L.holdings, h.items = []) :
    L.free.Perm stock := by
  have hitems := H.items
  rwa [List.flatMap_eq_nil_iff.mpr hnil, List.append_nil] at hitems

theorem append_empty (H : L.Balanced stock) :
    (⟨L.available, L.free, L.holdings ++ [⟨0, []⟩]⟩ : Ledger γ).Balanced stock where
  permits := by
    rw [List.map_append, List.sum_append, List.map_singleton, List.sum_singleton,
      Nat.add_zero, H.permits]
  items := by
    rw [List.flatMap_append, List.flatMap_singleton, List.append_nil]
    exact H.items
  covered := by
    intro h hmem
    rcases List.mem_append.mp hmem with hmem | hmem
    · exact H.covered h hmem
    · rw [List.mem_singleton.mp hmem]
      exact Nat.le_refl 0

end Ledger.Balanced

/-- Replacing an element in place. -/
theorem exists_set_eq {α : Type} {xs : List α} {i : Nat} {x : α} (h : xs[i]? = some x) :
    ∃ before after, xs = before ++ x :: after ∧ ∀ y, xs.set i y = before ++ y :: after := by
  induction xs generalizing i with
  | nil => cases h
  | cons x' xs ih =>
    cases i with
    | zero =>
      rw [List.getElem?_cons_zero, Option.some.injEq] at h
      exact ⟨[], xs, by rw [h, List.nil_append], fun y => rfl⟩
    | succ i =>
      rw [List.getElem?_cons_succ] at h
      obtain ⟨before, after, hxs, hset⟩ := ih h
      exact ⟨x' :: before, after, by rw [hxs, List.cons_append], fun y => by
        rw [List.set_cons_succ, hset, List.cons_append]⟩

theorem sum_map_set {α : Type} {xs : List α} {i : Nat} {x : α} (h : xs[i]? = some x)
    (f : α → Nat) (y : α) : ((xs.set i y).map f).sum + f x = (xs.map f).sum + f y := by
  obtain ⟨before, after, rfl, hset⟩ := exists_set_eq h
  rw [hset, List.map_append, List.map_append, List.map_cons, List.map_cons, List.sum_append,
    List.sum_append, List.sum_cons, List.sum_cons]
  omega

/-- An exchange between one holder and the stock: what the two have together stays the same, and the
holder's items stay covered. -/
theorem Ledger.Balanced.exchange (H : L.Balanced stock) {i : Nat} (hi : L.holdings[i]? = some h)
    {available : Nat} {free : List γ} (hpermits : available + h'.permits = L.available + h.permits)
    (hitems : (free ++ h'.items).Perm (L.free ++ h.items))
    (hcovered : h'.items.length ≤ h'.permits) :
    (⟨available, free, L.holdings.set i h'⟩ : Ledger γ).Balanced stock := by
  obtain ⟨before, after, hholdings, hset⟩ := exists_set_eq hi
  refine ⟨?_, ?_, ?_⟩
  · have hsum := H.permits
    rw [hholdings, List.map_append, List.map_cons, List.sum_append, List.sum_cons] at hsum
    change available + ((L.holdings.set i h').map Holding.permits).sum = stock.length
    rw [hset, List.map_append, List.map_cons, List.sum_append, List.sum_cons]
    omega
  · -- the holder's items are moved next to the free ones, exchanged, and moved back
    have hmove : ∀ stocked items : List γ,
        (stocked ++ (before.flatMap Holding.items ++ (items ++ after.flatMap Holding.items))).Perm
          ((stocked ++ items) ++ (before.flatMap Holding.items ++
            after.flatMap Holding.items)) := by
      intro stocked items
      rw [List.append_assoc]
      exact (List.perm_append_comm_assoc _ _ _).append_left _
    refine List.Perm.trans ?_ H.items
    rw [hset, hholdings, List.flatMap_append, List.flatMap_append, List.flatMap_cons,
      List.flatMap_cons]
    exact (hmove _ _).trans ((hitems.append_right _).trans (hmove _ _).symm)
  · intro g hg
    simp only [hset] at hg
    rcases List.mem_append.mp hg with hg | hg
    · exact H.covered g (hholdings ▸ List.mem_append_left _ hg)
    · rcases List.mem_cons.mp hg with rfl | hg
      · exact hcovered
      · exact H.covered g (hholdings ▸ List.mem_append_right _ (List.mem_cons_of_mem _ hg))

end Pool
