import Mathlib

/-!
# Keyed tables

A table is the list of its rows in insertion order together with the proof that no two rows
share the primary key, so a table that violates its key cannot be built. The operations are the
statements an SQL transaction is made of: `UPDATE … WHERE`, `DELETE … WHERE`, `INSERT`,
`INSERT OR IGNORE` and lookups. `Table.insertNew` allocates the row id as an
`INTEGER PRIMARY KEY` does, one more than the largest present; `AutoTable` is the
`AUTOINCREMENT` variant, whose sequence never goes back.
-/

namespace Sql

/-- Rows of type `α` with unique values of `key`. -/
structure Table (α : Type) {κ : Type} (key : α → κ) where
  rows : List α
  nodup : (rows.map key).Nodup

namespace Table

variable {α κ : Type} {key : α → κ} {t : Table α key} {a b : α} {k : κ} {p : α → Bool}

instance : Membership α (Table α key) := ⟨fun t a => a ∈ t.rows⟩

theorem mem_def : a ∈ t ↔ a ∈ t.rows := Iff.rfl

@[ext] theorem ext {t u : Table α key} (h : t.rows = u.rows) : t = u := by
  cases t; cases u; cases h; rfl

def empty : Table α key := ⟨[], List.nodup_nil⟩

@[simp] theorem not_mem_empty : a ∉ (empty : Table α key) := List.not_mem_nil

/-- The primary key determines the row. -/
theorem eq_of_key_eq (ha : a ∈ t) (hb : b ∈ t) (h : key a = key b) : a = b :=
  List.inj_on_of_nodup_map t.nodup ha hb h

/-! ## Lookups -/

/-- `SELECT … WHERE p`, the first row. -/
def find? (t : Table α key) (p : α → Bool) : Option α := t.rows.find? p

/-- `SELECT EXISTS (… WHERE p)`. -/
def any (t : Table α key) (p : α → Bool) : Bool := t.rows.any p

/-- `SELECT … WHERE key = k`. -/
def get? [DecidableEq κ] (t : Table α key) (k : κ) : Option α := t.find? fun a => key a = k

theorem mem_of_find? (h : t.find? p = some a) : a ∈ t := List.mem_of_find?_eq_some h

theorem of_find? (h : t.find? p = some a) : p a = true := List.find?_some h

theorem find?_eq_none : t.find? p = none ↔ ∀ a ∈ t, p a = false := by
  simp [find?, mem_def]

theorem any_eq_true : t.any p = true ↔ ∃ a ∈ t, p a = true := by
  simp [any, mem_def]

theorem any_eq_false : t.any p = false ↔ ∀ a ∈ t, p a = false := by
  simp [any, mem_def]

section
variable [DecidableEq κ]

theorem get?_eq_some : t.get? k = some a ↔ a ∈ t ∧ key a = k := by
  refine ⟨fun h => ⟨mem_of_find? h, by simpa using of_find? h⟩, ?_⟩
  rintro ⟨ha, rfl⟩
  cases h : t.get? (key a) with
  | none => simpa using find?_eq_none.mp h a ha
  | some b =>
    have hb : key b = key a := by simpa using of_find? h
    rw [eq_of_key_eq (mem_of_find? h) ha hb]

theorem get?_eq_none : t.get? k = none ↔ ∀ a ∈ t, key a ≠ k := by
  simp [get?, find?_eq_none]

theorem mem_of_get? (h : t.get? k = some a) : a ∈ t := (get?_eq_some.mp h).1

theorem key_of_get? (h : t.get? k = some a) : key a = k := (get?_eq_some.mp h).2

theorem get?_of_mem (h : a ∈ t) : t.get? (key a) = some a := get?_eq_some.mpr ⟨h, rfl⟩

end

/-! ## Statements -/

/-- `UPDATE … SET f WHERE p`; `f` leaves the primary key alone. -/
def update (t : Table α key) (p : α → Bool) (f : α → α)
    (hf : ∀ a, key (f a) = key a := by intro _; rfl) : Table α key where
  rows := t.rows.map fun a => if p a then f a else a
  nodup := by
    have h : key ∘ (fun a => if p a then f a else a) = key := by
      funext a
      simp only [Function.comp]
      split
      · exact hf a
      · rfl
    rw [List.map_map, h]
    exact t.nodup

/-- `DELETE … WHERE p`. -/
def delete (t : Table α key) (p : α → Bool) : Table α key where
  rows := t.rows.filter fun a => !p a
  nodup := t.nodup.sublist (List.filter_sublist.map _)

/-- `INSERT` of a row with a key no row has. -/
def insert (t : Table α key) (a : α) (h : ∀ b ∈ t, key b ≠ key a) : Table α key where
  rows := t.rows ++ [a]
  nodup := by
    rw [List.map_append, List.nodup_append]
    refine ⟨t.nodup, by simp, ?_⟩
    intro x hx y hy
    obtain ⟨b, hb, rfl⟩ := List.mem_map.mp hx
    rw [List.map_singleton, List.mem_singleton] at hy
    subst hy
    exact h b hb

variable {f : α → α} {hf : ∀ a, key (f a) = key a}

theorem mem_update : b ∈ t.update p f hf ↔ ∃ a ∈ t, (if p a then f a else a) = b := List.mem_map

theorem mem_delete : a ∈ t.delete p ↔ a ∈ t ∧ p a = false := by
  simp [mem_def, delete]

theorem mem_insert {h : ∀ c ∈ t, key c ≠ key b} : a ∈ t.insert b h ↔ a ∈ t ∨ a = b := by
  simp [mem_def, insert]

/-- A statement whose condition one row meets finds that row alone. -/
theorem filter_eq_singleton (ha : a ∈ t) (hp : p a = true) (h : ∀ b ∈ t, p b = true → b = a) :
    t.rows.filter p = [a] := by
  have hnd : (t.rows.filter p).Nodup := t.nodup.of_map.filter p
  refine List.perm_singleton.mp ((List.perm_ext_iff_of_nodup hnd (List.nodup_singleton a)).mpr ?_)
  intro b
  rw [List.mem_filter, List.mem_singleton]
  refine ⟨fun hb => h b hb.1 hb.2, ?_⟩
  rintro rfl
  exact ⟨ha, hp⟩

theorem mem_of_mem_delete (h : a ∈ t.delete p) : a ∈ t := (mem_delete.mp h).1

/-- A row that was deleted has left no row with its key. -/
theorem key_ne_of_mem_delete (ha : a ∈ t) (hp : p a = true) (hb : b ∈ t.delete p) :
    key b ≠ key a := by
  obtain ⟨hb, hpb⟩ := mem_delete.mp hb
  intro heq
  rw [eq_of_key_eq hb ha heq, hp] at hpb
  cases hpb

theorem delete_eq_self (h : ∀ a ∈ t, p a = false) : t.delete p = t := by
  ext1
  exact List.filter_eq_self.mpr fun a ha => by simp [h a ha]

/-- A row outside the `WHERE` clause survives an update. -/
theorem mem_update_of_not (hf : ∀ a, key (f a) = key a) (h : a ∈ t) (hp : p a = false) :
    a ∈ t.update p f hf :=
  mem_update.mpr ⟨a, h, by simp [hp]⟩

theorem update_congr {q : α → Bool} (h : ∀ a ∈ t, p a = q a) :
    t.update p f hf = t.update q f hf := by
  ext1
  exact List.map_congr_left fun a ha => by rw [h a ha]

theorem update_eq_self (h : ∀ a ∈ t, p a = false) : t.update p f hf = t := by
  ext1
  simp only [update]
  conv_rhs => rw [← List.map_id t.rows]
  exact List.map_congr_left fun a ha => by simp [h a ha]

section
variable [DecidableEq κ]

theorem get?_update :
    (t.update p f hf).get? k = (t.get? k).map fun a => if p a then f a else a := by
  cases h : t.get? k with
  | none =>
    rw [Option.map_none, get?_eq_none]
    rintro b hb rfl
    obtain ⟨a, ha, rfl⟩ := mem_update.mp hb
    refine get?_eq_none.mp h a ha ?_
    split
    · exact (hf a).symm
    · rfl
  | some a =>
    obtain ⟨ha, rfl⟩ := get?_eq_some.mp h
    rw [Option.map_some, get?_eq_some]
    refine ⟨mem_update.mpr ⟨a, ha, rfl⟩, ?_⟩
    split
    · exact hf a
    · rfl

theorem get?_delete : (t.delete p).get? k = (t.get? k).filter fun a => !p a := by
  cases h : t.get? k with
  | none =>
    rw [Option.filter_none, get?_eq_none]
    exact fun a ha => get?_eq_none.mp h a (mem_of_mem_delete ha)
  | some a =>
    obtain ⟨ha, rfl⟩ := get?_eq_some.mp h
    cases hp : p a with
    | false =>
      rw [Option.filter_some_pos (by simp [hp]), get?_eq_some]
      exact ⟨mem_delete.mpr ⟨ha, hp⟩, rfl⟩
    | true =>
      rw [Option.filter_some_neg (by simp [hp]), get?_eq_none]
      intro b hb hk
      obtain ⟨hb, hpb⟩ := mem_delete.mp hb
      rw [eq_of_key_eq hb ha hk, hp] at hpb
      cases hpb

theorem get?_insert_self {h : ∀ c ∈ t, key c ≠ key b} : (t.insert b h).get? (key b) = some b :=
  get?_of_mem (mem_insert.mpr (.inr rfl))

/-- `INSERT OR IGNORE`: the table and whether a row was added. -/
def insertOrIgnore (t : Table α key) (a : α) : Table α key × Bool :=
  if h : ∀ b ∈ t.rows, key b ≠ key a then (t.insert a h, true) else (t, false)

theorem insertOrIgnore_cases (t : Table α key) (a : α) :
    (∃ h, t.insertOrIgnore a = (t.insert a h, true)) ∨
      (t.insertOrIgnore a = (t, false) ∧ ∃ b ∈ t, key b = key a) := by
  unfold insertOrIgnore
  split
  · rename_i h
    exact .inl ⟨h, rfl⟩
  · rename_i h
    push Not at h
    exact .inr ⟨rfl, h⟩

/-- `INSERT OR REPLACE`. -/
def put (t : Table α key) (a : α) : Table α key :=
  (t.delete fun b => key b = key a).insert a fun _ hb => of_decide_eq_false (mem_delete.mp hb).2

theorem mem_put : b ∈ t.put a ↔ b ∈ t ∧ key b ≠ key a ∨ b = a := by
  rw [put, mem_insert, mem_delete, decide_eq_false_iff_not]

theorem get?_put_self : (t.put a).get? (key a) = some a := get?_insert_self

end

/-! ## Row ids -/

section
variable {id : α → Nat} {t : Table α id}

/-- The row id a table without `AUTOINCREMENT` gives next: the largest present plus one. -/
def nextRowid (t : Table α id) : Nat := (t.rows.map id).foldr max 0 + 1

theorem lt_nextRowid (h : a ∈ t) : id a < t.nextRowid := by
  have aux : ∀ l : List Nat, ∀ n ∈ l, n ≤ l.foldr max 0 := by
    intro l
    induction l with
    | nil => simp
    | cons m l ih =>
      intro n hn
      rcases List.mem_cons.mp hn with rfl | hn
      · exact Nat.le_max_left ..
      · exact (ih n hn).trans (Nat.le_max_right ..)
  exact Nat.lt_succ_of_le (aux _ _ (List.mem_map.mpr ⟨a, h, rfl⟩))

/-- `INSERT` with the next row id. -/
def insertNew (t : Table α id) (mk : Nat → α) (hmk : ∀ n, id (mk n) = n := by intro _; rfl) :
    Table α id :=
  t.insert (mk t.nextRowid) fun _ hb => by
    rw [hmk]
    exact (lt_nextRowid hb).ne

theorem rows_insertNew {mk : Nat → α} {hmk : ∀ n, id (mk n) = n} :
    (t.insertNew mk hmk).rows = t.rows ++ [mk t.nextRowid] := rfl

theorem mem_insertNew {mk : Nat → α} {hmk : ∀ n, id (mk n) = n} :
    a ∈ t.insertNew mk hmk ↔ a ∈ t ∨ a = mk t.nextRowid := mem_insert

end

end Table

/-! ## Tables that agree row by row -/

/-- Row by row the two tables are related. -/
def Table.Rel {α κ : Type} {key : α → κ} (R : α → α → Prop) (t u : Table α key) : Prop :=
  List.Forall₂ R t.rows u.rows

namespace Table.Rel

variable {α κ : Type} {key : α → κ} {R : α → α → Prop} {t u : Table α key} {p q : α → Bool}
  {f g : α → α}

theorem refl (h : ∀ a, R a a) : Rel R t t := List.forall₂_same.mpr fun a _ => h a

theorem find? (h : Rel R t u) (hp : ∀ {a b}, R a b → p a = q b) :
    Option.Rel R (t.find? p) (u.find? q) := by
  obtain ⟨l, hl⟩ := t
  obtain ⟨m, hm⟩ := u
  change List.Forall₂ R l m at h
  change Option.Rel R (l.find? p) (m.find? q)
  clear hl hm
  induction h with
  | nil => exact .none
  | @cons a b l m hab _ ih =>
    rw [List.find?_cons, List.find?_cons, hp hab]
    cases q b with
    | true => exact .some hab
    | false => exact ih

theorem any (h : Rel R t u) (hp : ∀ {a b}, R a b → p a = q b) : t.any p = u.any q := by
  obtain ⟨l, hl⟩ := t
  obtain ⟨m, hm⟩ := u
  change List.Forall₂ R l m at h
  change l.any p = m.any q
  clear hl hm
  induction h with
  | nil => rfl
  | cons hab _ ih => rw [List.any_cons, List.any_cons, hp hab, ih]

theorem update (hf : ∀ a, key (f a) = key a) (hg : ∀ a, key (g a) = key a) (h : Rel R t u)
    (hp : ∀ {a b}, R a b → p a = q b)
    (hfg : ∀ {a b}, R a b → R (f a) (g b)) : Rel R (t.update p f hf) (u.update q g hg) := by
  refine List.rel_map ?_ h
  intro a b hab
  simp only [hp hab]
  split
  · exact hfg hab
  · exact hab

/-- An update on one side only. -/
theorem update_left (hf : ∀ a, key (f a) = key a) (h : Rel R t u)
    (hfg : ∀ {a b}, a ∈ t → R a b → p a = true → R (f a) b) :
    Rel R (t.update p f hf) u := by
  have hmem := (List.forall₂_and_left (p := (· ∈ t.rows)) _ _).mpr ⟨fun _ ha => ha, h⟩
  refine List.forall₂_map_left_iff.mpr (hmem.imp ?_)
  rintro a b ⟨ha, hab⟩
  split
  · exact hfg ha hab ‹_›
  · exact hab

end Table.Rel

/-- A table with an `AUTOINCREMENT` id: `seq` is the largest id ever given. -/
structure AutoTable (α : Type) (id : α → Nat) extends Table α id where
  seq : Nat
  le_seq : ∀ a ∈ rows, id a ≤ seq

namespace AutoTable

variable {α : Type} {id : α → Nat} {t : AutoTable α id} {a b : α} {p : α → Bool}

instance : Membership α (AutoTable α id) := ⟨fun t a => a ∈ t.toTable⟩

@[simp] theorem mem_toTable : a ∈ t.toTable ↔ a ∈ t := Iff.rfl

theorem id_le_seq (h : a ∈ t) : id a ≤ t.seq := t.le_seq a h

def empty : AutoTable α id := { Table.empty with seq := 0, le_seq := by simp [Table.empty] }

@[simp] theorem not_mem_empty : a ∉ (empty : AutoTable α id) := List.not_mem_nil

def update (t : AutoTable α id) (p : α → Bool) (f : α → α)
    (hf : ∀ a, id (f a) = id a := by intro _; rfl) : AutoTable α id :=
  { t.toTable.update p f hf with
    seq := t.seq
    le_seq := by
      intro b hb
      obtain ⟨a, ha, rfl⟩ := Table.mem_update.mp hb
      have := t.le_seq a ha
      split
      · rw [hf]; exact this
      · exact this }

def delete (t : AutoTable α id) (p : α → Bool) : AutoTable α id :=
  { t.toTable.delete p with
    seq := t.seq
    le_seq := fun a ha => t.le_seq a (Table.mem_of_mem_delete ha) }

/-- `INSERT`: the next id is one more than any id ever given. -/
def insertNew (t : AutoTable α id) (mk : Nat → α) (hmk : ∀ n, id (mk n) = n := by intro _; rfl) :
    AutoTable α id :=
  { t.toTable.insert (mk (t.seq + 1)) fun b hb => by
      rw [hmk]
      exact (Nat.lt_succ_of_le (t.le_seq b hb)).ne with
    seq := t.seq + 1
    le_seq := by
      intro b hb
      rcases Table.mem_insert.mp hb with hb | rfl
      · exact (t.le_seq b hb).trans (Nat.le_succ _)
      · rw [hmk] }

/-- `INSERT` with an explicit id, larger than any ever given. -/
def insertAt (t : AutoTable α id) (a : α) (h : t.seq < id a) : AutoTable α id :=
  { t.toTable.insert a fun b hb => ((t.le_seq b hb).trans_lt h).ne with
    seq := id a
    le_seq := by
      intro b hb
      rcases Table.mem_insert.mp hb with hb | rfl
      · exact ((t.le_seq b hb).trans_lt h).le
      · exact le_rfl }

/-- Leaves out the ids up to `n`. -/
def skipTo (t : AutoTable α id) (n : Nat) (h : t.seq ≤ n) : AutoTable α id :=
  { t with seq := n, le_seq := fun a ha => (t.le_seq a ha).trans h }

variable {f : α → α} {hf : ∀ a, id (f a) = id a} {mk : Nat → α} {hmk : ∀ n, id (mk n) = n}

@[simp] theorem toTable_update : (t.update p f hf).toTable = t.toTable.update p f hf := rfl

@[simp] theorem toTable_skipTo {n : Nat} {h : t.seq ≤ n} : (t.skipTo n h).toTable = t.toTable := rfl
@[simp] theorem seq_insertNew : (t.insertNew mk hmk).seq = t.seq + 1 := rfl

theorem mem_update : b ∈ t.update p f hf ↔ ∃ a ∈ t, (if p a then f a else a) = b := by
  rw [← mem_toTable, toTable_update, Table.mem_update]
  rfl

theorem mem_delete : a ∈ t.delete p ↔ a ∈ t ∧ p a = false := Table.mem_delete

theorem mem_insertNew : a ∈ t.insertNew mk hmk ↔ a ∈ t ∨ a = mk (t.seq + 1) :=
  List.mem_append.trans (or_congr_right List.mem_singleton)

theorem get?_insertNew (hmk : ∀ n, id (mk n) = n) {i : Nat} : (t.insertNew mk hmk).get? i =
    if i = t.seq + 1 then some (mk (t.seq + 1)) else t.get? i := by
  by_cases hi : i = t.seq + 1
  · rw [if_pos hi]
    exact Table.get?_eq_some.mpr ⟨mem_insertNew.mpr (.inr rfl), (hmk _).trans hi.symm⟩
  · rw [if_neg hi]
    cases hg : t.get? i with
    | some a =>
      obtain ⟨ha, hid⟩ := Table.get?_eq_some.mp hg
      exact Table.get?_eq_some.mpr ⟨mem_insertNew.mpr (.inl ha), hid⟩
    | none =>
      refine Table.get?_eq_none.mpr fun a ha => ?_
      rcases mem_insertNew.mp ha with ha | rfl
      · exact Table.get?_eq_none.mp hg a ha
      · rw [hmk]
        exact Ne.symm hi

theorem mem_insertAt {h : t.seq < id b} : a ∈ t.insertAt b h ↔ a ∈ t ∨ a = b :=
  List.mem_append.trans (or_congr_right List.mem_singleton)

theorem eq_of_id_eq (ha : a ∈ t) (hb : b ∈ t) (h : id a = id b) : a = b :=
  Table.eq_of_key_eq ha hb h

/-- Nothing was inserted on the way from `t` to `u`: every row of `u` is related to one of `t`. -/
structure Back (R : α → α → Prop) (t u : AutoTable α id) : Prop where
  seq : u.seq = t.seq
  mem : ∀ {b}, b ∈ u → ∃ a ∈ t, R a b

namespace Back

variable {R : α → α → Prop} {u v : AutoTable α id}

theorem refl (h : ∀ a, R a a) : Back R t t := ⟨rfl, fun hb => ⟨_, hb, h _⟩⟩

theorem trans (hR : ∀ {a b c}, R a b → R b c → R a c) (h₁ : Back R t u) (h₂ : Back R u v) :
    Back R t v := by
  refine ⟨h₂.seq.trans h₁.seq, fun hc => ?_⟩
  obtain ⟨b, hb, hbc⟩ := h₂.mem hc
  obtain ⟨a, ha, hab⟩ := h₁.mem hb
  exact ⟨a, ha, hR hab hbc⟩

theorem delete (h : ∀ a, R a a) : Back R t (t.delete p) :=
  ⟨rfl, fun hb => ⟨_, (mem_delete.mp hb).1, h _⟩⟩

theorem update (hf : ∀ a, id (f a) = id a) (h : ∀ a, R a a) (hR : ∀ a, R a (f a)) :
    Back R t (t.update p f hf) := by
  refine ⟨rfl, fun hb => ?_⟩
  obtain ⟨a, ha, rfl⟩ := mem_update.mp hb
  refine ⟨a, ha, ?_⟩
  split
  · exact hR a
  · exact h a

end Back

/-- At most one row was inserted on the way from `t` to `u`. -/
def Grows (R : α → α → Prop) (t u : AutoTable α id) : Prop :=
  ∃ t', Back R t t' ∧ (u = t' ∨ ∃ mk hmk, u = t'.insertNew mk hmk)

namespace Grows

variable {R : α → α → Prop} {u : AutoTable α id}

theorem seq_le (h : Grows R t u) : t.seq ≤ u.seq := by
  obtain ⟨t', hback, rfl | ⟨mk, hmk, rfl⟩⟩ := h
  · exact hback.seq.ge
  · rw [seq_insertNew, hback.seq]
    exact Nat.le_succ _

/-- An id is not used again: what `R` keeps of the row with an id that was given stays. -/
theorem kept {Q : α → Prop} {i : Nat} (h : Grows R t u) (hid : ∀ {a b}, R a b → id a = id b)
    (hQ : ∀ {a b}, R a b → Q a → Q b) (hseq : i ≤ t.seq) (hpre : ∀ a ∈ t, id a = i → Q a) :
    ∀ b ∈ u, id b = i → Q b := by
  obtain ⟨t', hback, hu⟩ := h
  have hold : ∀ b ∈ t', id b = i → Q b := by
    intro b hb hbi
    obtain ⟨a, ha, hab⟩ := hback.mem hb
    exact hQ hab (hpre a ha ((hid hab).trans hbi))
  rcases hu with rfl | ⟨mk, hmk, rfl⟩
  · exact hold
  · intro b hb hbi
    rcases mem_insertNew.mp hb with hb | rfl
    · exact hold b hb hbi
    · rw [hmk, hback.seq] at hbi
      exact absurd (hbi ▸ hseq) (Nat.not_succ_le_self _)

end Grows

end AutoTable

/-- `ORDER BY le`, ties in insertion order. -/
def orderBy {α : Type} (le : α → α → Bool) (rows : List α) : List α :=
  rows.insertionSort fun a b => le a b = true

theorem mem_orderBy {α : Type} {le : α → α → Bool} {rows : List α} {a : α} :
    a ∈ orderBy le rows ↔ a ∈ rows :=
  (List.perm_insertionSort _ rows).mem_iff

theorem length_orderBy {α : Type} {le : α → α → Bool} {rows : List α} :
    (orderBy le rows).length = rows.length :=
  (List.perm_insertionSort _ rows).length_eq

end Sql
