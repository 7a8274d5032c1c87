import Kohaku.Sql.Table

/-!
# A table without its dead rows

A row that no statement selects any more may be deleted. What is left answers every statement alike,
although row ids that became free may be given again: the remaining rows are the same up to their
ids, in the same order of ids. `Purged` pairs each row with what is left of it, and its rules say
that the statements keep the pairing.
-/

namespace Sql.Table

variable {α γ : Type} {id : α → Nat} {strip : α → α} {before : α → α → Prop} {dead dead' : α → Prop}
  {t u : Table α id} {qs : List (α × Option α)} {a b c d : α}

theorem any_update {p q : α → Bool} {f : α → α} {hf : ∀ a, id (f a) = id a}
    (hq : ∀ a, q (f a) = q a) : (t.update p f hf).any q = t.any q := by
  rw [any, any, update, List.any_map]
  congr 1
  funext a
  rw [Function.comp, apply_ite q, hq, ite_self]

/-- `u` is `t` without some dead rows, up to ids: `qs` pairs the rows of `t` with those of `u`. The
rows that are gone come before those that are left. -/
structure Purged (strip : α → α) (before : α → α → Prop) (dead : α → Prop) (t u : Table α id)
    (qs : List (α × Option α)) : Prop where
  left : qs.map Prod.fst = t.rows
  right : qs.filterMap Prod.snd = u.rows
  same : ∀ {a b}, (a, some b) ∈ qs → strip a = strip b
  order : ∀ {a b c d}, (a, some b) ∈ qs → (c, some d) ∈ qs → (id a ≤ id c ↔ id b ≤ id d)
  gone : ∀ {a}, (a, none) ∈ qs → dead a
  first : ∀ {a c d}, (a, none) ∈ qs → (c, some d) ∈ qs → before a c

namespace Purged

theorem refl (strip : α → α) (before : α → α → Prop) (dead : α → Prop) (t : Table α id) :
    Purged strip before dead t t (t.rows.map fun a => (a, some a)) := by
  have hmem : ∀ {a : α} {o : Option α}, (a, o) ∈ t.rows.map (fun a => (a, some a)) →
      o = some a := by
    intro a o h
    obtain ⟨b, -, hb⟩ := List.mem_map.mp h
    cases hb
    rfl
  refine ⟨?_, ?_, ?_, ?_, ?_, ?_⟩
  · rw [List.map_map]
    exact List.map_id _
  · rw [List.filterMap_map]
    exact List.filterMap_some
  · intro a b h
    cases hmem h
    rfl
  · intro a b c d hab hcd
    cases hmem hab
    cases hmem hcd
    rfl
  · intro a h
    cases hmem h
  · intro a c d h
    cases hmem h

theorem weaken (h : Purged strip before dead t u qs) (hdead : ∀ a, dead a → dead' a) :
    Purged strip before dead' t u qs :=
  ⟨h.left, h.right, h.same, h.order, fun hgone => hdead _ (h.gone hgone), h.first⟩

theorem mem_left (h : Purged strip before dead t u qs) {o : Option α} (ha : (a, o) ∈ qs) :
    a ∈ t := by
  rw [mem_def, ← h.left]
  exact List.mem_map_of_mem ha

theorem mem_right (h : Purged strip before dead t u qs) (ha : (a, some b) ∈ qs) : b ∈ u := by
  rw [mem_def, ← h.right]
  exact List.mem_filterMap.mpr ⟨_, ha, rfl⟩

/-- What does not depend on the ids is the same on both sides. -/
theorem congr (h : Purged strip before dead t u qs) (f : α → γ) (hf : ∀ a, f (strip a) = f a)
    (hab : (a, some b) ∈ qs) : f a = f b := by
  rw [← hf a, h.same hab, hf b]

theorem id_eq_iff (h : Purged strip before dead t u qs) (hab : (a, some b) ∈ qs)
    (hcd : (c, some d) ∈ qs) : id a = id c ↔ id b = id d := by
  rw [le_antisymm_iff, le_antisymm_iff, h.order hab hcd, h.order hcd hab]

/-! ## Statements -/

section
variable {p q : α → Bool} {f g : α → α}

theorem rows_delete : (t.delete p).rows = t.rows.filter fun a => !p a := rfl

theorem rows_update {hf : ∀ a, id (f a) = id a} :
    (t.update p f hf).rows = t.rows.map fun a => if p a then f a else a := rfl

/-- Dead rows are deleted on one side. -/
theorem purge (h : Purged strip before dead t u qs)
    (hdead : ∀ {a b}, (a, some b) ∈ qs → q b = true → dead a)
    (hfirst : ∀ {a b c d}, (a, some b) ∈ qs → (c, some d) ∈ qs → q b = true → q d = false →
      before a c) :
    Purged strip before dead t (u.delete q) (qs.map fun x => (x.1, x.2.filter fun b => !q b)) := by
  have hsome : ∀ {a b : α}, (a, some b) ∈ qs.map (fun x => (x.1, x.2.filter fun b => !q b)) →
      (a, some b) ∈ qs ∧ q b = false := by
    intro a b hx
    obtain ⟨⟨a', o⟩, ho, heq⟩ := List.mem_map.mp hx
    obtain ⟨rfl, hfilter⟩ := Prod.mk.inj heq
    obtain ⟨rfl, hq⟩ : o = some b ∧ _ := Option.filter_eq_some_iff.mp hfilter
    exact ⟨ho, Bool.not_eq_true' _ ▸ hq⟩
  have hnone : ∀ {a : α}, (a, none) ∈ qs.map (fun x => (x.1, x.2.filter fun b => !q b)) →
      (a, none) ∈ qs ∨ ∃ b, (a, some b) ∈ qs ∧ q b = true := by
    intro a hx
    obtain ⟨⟨a', o⟩, ho, heq⟩ := List.mem_map.mp hx
    obtain ⟨rfl, hfilter⟩ := Prod.mk.inj heq
    cases o with
    | none => exact .inl ho
    | some b =>
      refine .inr ⟨b, ho, ?_⟩
      by_contra hq
      rw [Option.filter_some_pos (by simpa using hq)] at hfilter
      cases hfilter
  refine ⟨?_, ?_, fun hab => h.same (hsome hab).1, fun hab hcd =>
    h.order (hsome hab).1 (hsome hcd).1, ?_, ?_⟩
  · rw [List.map_map]
    exact h.left
  · rw [List.filterMap_map, rows_delete, ← h.right, List.filter_filterMap]
    rfl
  · intro a ha
    rcases hnone ha with ha | ⟨b, hab, hq⟩
    · exact h.gone ha
    · exact hdead hab hq
  · intro a c d ha hcd
    obtain ⟨hcd, hd⟩ := hsome hcd
    rcases hnone ha with ha | ⟨b, hab, hq⟩
    · exact h.first ha hcd
    · exact hfirst hab hcd hq hd

/-- The same rows are deleted on both sides. -/
theorem delete (h : Purged strip before dead t u qs) (hpq : ∀ {a b}, (a, some b) ∈ qs → p a = q b) :
    Purged strip before dead (t.delete p) (u.delete q) (qs.filter fun x => !p x.1) := by
  have hsub : ∀ {x}, x ∈ qs.filter (fun x => !p x.1) → x ∈ qs := List.mem_of_mem_filter
  refine ⟨?_, ?_, fun hab => h.same (hsub hab), fun hab hcd => h.order (hsub hab) (hsub hcd),
    fun ha => h.gone (hsub ha), fun ha hcd => h.first (hsub ha) (hsub hcd)⟩
  · rw [rows_delete, ← h.left, List.filter_map]
    rfl
  · rw [rows_delete, ← h.right, List.filter_filterMap, List.filterMap_filter]
    refine List.filterMap_congr fun x hx => ?_
    obtain ⟨a, o⟩ := x
    cases o with
    | none => cases p a <;> rfl
    | some b =>
      change (if (!p a) = true then some b else none) = (some b).filter fun b => !q b
      rw [hpq hx]
      rfl

/-- The same rows are changed alike on both sides; dead rows stay dead. -/
theorem update (h : Purged strip before dead t u qs) (hf : ∀ a, id (f a) = id a)
    (hg : ∀ a, id (g a) = id a)
    (hpq : ∀ {a b}, (a, some b) ∈ qs → p a = q b ∧ (p a = true → strip (f a) = strip (g b)))
    (hdead : ∀ {a}, a ∈ t → dead a → dead' (if p a then f a else a))
    (hfirst : ∀ {a c}, before a c → before (if p a then f a else a) (if p c then f c else c)) :
    Purged strip before dead' (t.update p f hf) (u.update q g hg)
      (qs.map fun x => (if p x.1 then f x.1 else x.1, x.2.map fun b => if q b then g b
        else b)) := by
  have hid : ∀ a, id (if p a then f a else a) = id a := by
    intro a
    split
    · exact hf a
    · rfl
  have hid' : ∀ b, id (if q b then g b else b) = id b := by
    intro b
    split
    · exact hg b
    · rfl
  have hsome : ∀ {a b : α}, (a, some b) ∈ qs.map (fun x =>
      (if p x.1 then f x.1 else x.1, x.2.map fun b => if q b then g b else b)) →
      ∃ a' b', (a', some b') ∈ qs ∧ a = (if p a' then f a' else a') ∧
      b = (if q b' then g b' else b') := by
    intro a b hx
    obtain ⟨⟨a', o⟩, ho, heq⟩ := List.mem_map.mp hx
    obtain ⟨rfl, hmap⟩ := Prod.mk.inj heq
    obtain ⟨b', rfl, rfl⟩ := Option.map_eq_some_iff.mp hmap
    exact ⟨a', b', ho, rfl, rfl⟩
  have hnone : ∀ {a : α}, (a, none) ∈ qs.map (fun x =>
      (if p x.1 then f x.1 else x.1, x.2.map fun b => if q b then g b else b)) →
      ∃ a', (a', none) ∈ qs ∧ a = (if p a' then f a' else a') := by
    intro a hx
    obtain ⟨⟨a', o⟩, ho, heq⟩ := List.mem_map.mp hx
    obtain ⟨rfl, hmap⟩ := Prod.mk.inj heq
    obtain rfl := Option.map_eq_none_iff.mp hmap
    exact ⟨a', ho, rfl⟩
  refine ⟨?_, ?_, ?_, ?_, ?_, ?_⟩
  · rw [rows_update, ← h.left, List.map_map, List.map_map]
    rfl
  · rw [rows_update, ← h.right, List.filterMap_map, List.map_filterMap]
    rfl
  · intro a b hab
    obtain ⟨a', b', hab', rfl, rfl⟩ := hsome hab
    obtain ⟨hp, hstrip⟩ := hpq hab'
    rw [← hp]
    split
    next hp => exact hstrip hp
    next => exact h.same hab'
  · intro a b c d hab hcd
    obtain ⟨a', b', hab', rfl, rfl⟩ := hsome hab
    obtain ⟨c', d', hcd', rfl, rfl⟩ := hsome hcd
    rw [hid, hid, hid', hid']
    exact h.order hab' hcd'
  · intro a ha
    obtain ⟨a', ha', rfl⟩ := hnone ha
    exact hdead (h.mem_left ha') (h.gone ha')
  · intro a c d ha hcd
    obtain ⟨a', ha', rfl⟩ := hnone ha
    obtain ⟨c', d', hcd', rfl, -⟩ := hsome hcd
    exact hfirst (h.first ha' hcd')

/-- A row is inserted on both sides, with the next id of each. -/
theorem insert (h : Purged strip before dead t u qs) {n m : Nat} (mk : Nat → α)
    (hmk : ∀ n, id (mk n) = n)
    {t' u' : Table α id} (ht : t'.rows = t.rows ++ [mk n]) (hu : u'.rows = u.rows ++ [mk m])
    (hn : ∀ a ∈ t, id a < n) (hm : ∀ b ∈ u, id b < m) (hstrip : strip (mk n) = strip (mk m))
    (hfirst : ∀ {a}, dead a → before a (mk n)) :
    Purged strip before dead t' u' (qs ++ [(mk n, some (mk m))]) := by
  have hmem : ∀ {a b : α}, (a, some b) ∈ qs ++ [(mk n, some (mk m))] →
      (a, some b) ∈ qs ∨ a = mk n ∧ b = mk m := by
    intro a b hx
    rcases List.mem_append.mp hx with hx | hx
    · exact .inl hx
    · cases List.mem_singleton.mp hx
      exact .inr ⟨rfl, rfl⟩
  have hnone : ∀ {a : α}, (a, none) ∈ qs ++ [(mk n, some (mk m))] → (a, none) ∈ qs := by
    intro a hx
    rcases List.mem_append.mp hx with hx | hx
    · exact hx
    · cases List.mem_singleton.mp hx
  refine ⟨?_, ?_, ?_, ?_, fun ha => h.gone (hnone ha), ?_⟩
  · rw [List.map_append, h.left, ht]
    rfl
  · rw [List.filterMap_append, h.right, hu]
    rfl
  · intro a b hab
    rcases hmem hab with hab | ⟨rfl, rfl⟩
    · exact h.same hab
    · exact hstrip
  · intro a b c d hab hcd
    rcases hmem hab with hab | ⟨rfl, rfl⟩
    · rcases hmem hcd with hcd | ⟨rfl, rfl⟩
      · exact h.order hab hcd
      · rw [hmk, hmk]
        exact iff_of_true (hn a (h.mem_left hab)).le (hm b (h.mem_right hab)).le
    · rcases hmem hcd with hcd | ⟨rfl, rfl⟩
      · rw [hmk, hmk]
        exact iff_of_false (Nat.not_le_of_lt (hn c (h.mem_left hcd)))
          (Nat.not_le_of_lt (hm d (h.mem_right hcd)))
      · exact iff_of_true (Nat.le_refl _) (Nat.le_refl _)
  · intro a c d ha hcd
    rcases hmem hcd with hcd | ⟨rfl, rfl⟩
    · exact h.first (hnone ha) hcd
    · exact hfirst (h.gone (hnone ha))

theorem insertNew (h : Purged strip before dead t u qs) (mk : Nat → α) (hmk : ∀ n, id (mk n) = n)
    (hstrip : ∀ n m, strip (mk n) = strip (mk m)) (hfirst : ∀ {a n}, dead a → before a (mk n)) :
    Purged strip before dead (t.insertNew mk hmk) (u.insertNew mk hmk)
      (qs ++ [(mk t.nextRowid, some (mk u.nextRowid))]) :=
  h.insert mk hmk rfl rfl (fun _ => lt_nextRowid) (fun _ => lt_nextRowid) (hstrip _ _) hfirst

/-- With `AUTOINCREMENT` both sides give the same id. -/
theorem insertAuto {t u : AutoTable α id} (h : Purged strip before dead t.toTable u.toTable qs)
    (hseq : t.seq = u.seq) (mk : Nat → α) (hmk : ∀ n, id (mk n) = n)
    (hfirst : ∀ {a n}, dead a → before a (mk n)) :
    Purged strip before dead (t.insertNew mk hmk).toTable (u.insertNew mk hmk).toTable
      (qs ++ [(mk (t.seq + 1), some (mk (u.seq + 1)))]) :=
  h.insert mk hmk rfl rfl (fun a ha => Nat.lt_succ_of_le (t.le_seq a ha))
    (fun b hb => Nat.lt_succ_of_le (u.le_seq b hb)) (by rw [hseq]) hfirst

/-! ## Selections -/

/-- What a statement selects on one side and on the other, when it selects no row that is gone. -/
theorem select (h : Purged strip before dead t u qs) (hpq : ∀ {a b}, (a, some b) ∈ qs → p a = q b)
    (hgone : ∀ {a}, (a, none) ∈ qs → p a = false) :
    ∃ rs : List (α × α), (∀ {a b}, (a, b) ∈ rs → (a, some b) ∈ qs) ∧
      t.rows.filter p = rs.map Prod.fst ∧ u.rows.filter q = rs.map Prod.snd := by
  rw [← h.left, ← h.right]
  clear h
  induction qs with
  | nil => exact ⟨[], fun hab => absurd hab List.not_mem_nil, rfl, rfl⟩
  | cons x qs ih =>
    obtain ⟨rs, hrs, hleft, hright⟩ := ih (fun hab => hpq (List.mem_cons_of_mem _ hab))
      fun ha => hgone (List.mem_cons_of_mem _ ha)
    obtain ⟨a, o⟩ := x
    cases o with
    | none =>
      refine ⟨rs, fun hab => List.mem_cons_of_mem _ (hrs hab), ?_, hright⟩
      rw [List.map_cons, List.filter_cons_of_neg (by simp [hgone List.mem_cons_self]), hleft]
    | some b =>
      have hab := hpq (a := a) (b := b) List.mem_cons_self
      cases hp : p a with
      | false =>
        refine ⟨rs, fun hab => List.mem_cons_of_mem _ (hrs hab), ?_, ?_⟩
        · rw [List.map_cons, List.filter_cons_of_neg (by simp [hp]), hleft]
        · rw [List.filterMap_cons, List.filter_cons_of_neg (by simp [← hab, hp]), hright]
      | true =>
        refine ⟨(a, b) :: rs, ?_, ?_, ?_⟩
        · intro c d hcd
          rcases List.mem_cons.mp hcd with hcd | hcd
          · cases hcd
            exact List.mem_cons_self
          · exact List.mem_cons_of_mem _ (hrs hcd)
        · rw [List.map_cons, List.filter_cons_of_pos hp, hleft]
          rfl
        · rw [List.filterMap_cons, List.filter_cons_of_pos (hab ▸ hp), hright]
          rfl

/-- The first row selected. -/
theorem find? (h : Purged strip before dead t u qs) (hpq : ∀ {a b}, (a, some b) ∈ qs → p a = q b)
    (hgone : ∀ {a}, (a, none) ∈ qs → p a = false) :
    t.find? p = none ∧ u.find? q = none ∨
      ∃ a b, (a, some b) ∈ qs ∧ t.find? p = some a ∧ u.find? q = some b := by
  obtain ⟨rs, hrs, hleft, hright⟩ := h.select hpq hgone
  rw [Table.find?, Table.find?, ← List.head?_filter, ← List.head?_filter, hleft, hright]
  cases rs with
  | nil => exact .inl ⟨rfl, rfl⟩
  | cons x rs => exact .inr ⟨x.1, x.2, hrs List.mem_cons_self, rfl, rfl⟩

theorem any (h : Purged strip before dead t u qs) (hpq : ∀ {a b}, (a, some b) ∈ qs → p a = q b)
    (hgone : ∀ {a}, (a, none) ∈ qs → p a = false) : t.any p = u.any q := by
  obtain ⟨rs, -, hleft, hright⟩ := h.select hpq hgone
  have hany : ∀ (rows : List α) (p : α → Bool), rows.any p = (rows.filter p).any fun _ => true := by
    intro rows p
    rw [List.any_filter]
    simp only [Bool.and_true]
  rw [Table.any, Table.any, hany t.rows, hany u.rows, hleft, hright, List.any_map, List.any_map]
  rfl

theorem countP (h : Purged strip before dead t u qs) (hpq : ∀ {a b}, (a, some b) ∈ qs → p a = q b)
    (hgone : ∀ {a}, (a, none) ∈ qs → p a = false) : t.rows.countP p = u.rows.countP q := by
  obtain ⟨rs, -, hleft, hright⟩ := h.select hpq hgone
  rw [List.countP_eq_length_filter, List.countP_eq_length_filter, hleft, hright, List.length_map,
    List.length_map]

/-- The selected rows are the same up to their ids. -/
theorem map_strip (h : Purged strip before dead t u qs)
    (hpq : ∀ {a b}, (a, some b) ∈ qs → p a = q b) (hgone : ∀ {a}, (a, none) ∈ qs → p a = false) :
    (t.rows.filter p).map strip = (u.rows.filter q).map strip := by
  obtain ⟨rs, hrs, hleft, hright⟩ := h.select hpq hgone
  rw [hleft, hright, List.map_map, List.map_map]
  exact List.map_congr_left fun x hx => h.same (hrs hx)

end

end Purged

end Sql.Table
