import Kohaku.Server
import Kohaku.Sql.Top

/-!
# The ten device cookies of an account

`add_device` inserts its row first and then keeps the ten newest by creation time, ids breaking
ties. The new row has the greatest id but the time of the clock, so it is kept iff fewer than ten
rows of the account carry a later time (`rank_newDevice`): with a clock that was moved back it can
be evicted at once (`evicted_at_once`).
-/

namespace Kohaku

open Sql

variable {A : App} {db db' : Db} {t : Table DeviceRow DeviceRow.id} {uid : Nat} {now : Time}
  {token : Vector UInt8 32} {d : DeviceRow}

/-- The device cookies of an account. -/
def devicesOf (t : Table DeviceRow DeviceRow.id) (uid : Nat) : List DeviceRow :=
  t.rows.filter fun d => d.userId = uid

theorem mem_devicesOf : d ∈ devicesOf t uid ↔ d ∈ t ∧ d.userId = uid := by
  rw [devicesOf, List.mem_filter, decide_eq_true_eq, Table.mem_def]

theorem newerFirst_eq_true {a b : DeviceRow} : newerFirst a b = true ↔
    b.createdAt < a.createdAt ∨ b.createdAt = a.createdAt ∧ b.id ≤ a.id := by
  simp [newerFirst]

theorem newerFirst_eq_false {a b : DeviceRow} : newerFirst a b = false ↔
    a.createdAt < b.createdAt ∨ a.createdAt = b.createdAt ∧ a.id < b.id := by
  rw [← Bool.not_eq_true, newerFirst_eq_true]
  grind

theorem ranks_devices (t : Table DeviceRow DeviceRow.id) (uid : Nat) :
    Ranks newerFirst (devicesOf t uid) where
  total a b := by
    rw [newerFirst_eq_true, newerFirst_eq_true]
    grind
  trans hab hbc := by
    rw [newerFirst_eq_true] at hab hbc ⊢
    grind
  antisymm ha hb hab hba := by
    rw [newerFirst_eq_true] at hab hba
    exact Table.eq_of_key_eq (mem_devicesOf.mp ha).1 (mem_devicesOf.mp hb).1 (by grind)
  nodup := (List.Nodup.of_map _ t.nodup).filter _

/-- `add_device` keeps a row of the account iff fewer than ten come before it. -/
theorem mem_evictDevices_iff : d ∈ evictDevices t uid ↔
    d ∈ t ∧ (d.userId = uid → rank newerFirst (devicesOf t uid) d < devicesKept) := by
  rw [evictDevices, Table.mem_delete]
  refine and_congr_right fun hd => ?_
  have hkept : d.userId = uid → (d.id ∈ keptDevices t uid ↔
      rank newerFirst (devicesOf t uid) d < devicesKept) := by
    intro hid
    have hmem : d ∈ devicesOf t uid := mem_devicesOf.mpr ⟨hd, hid⟩
    rw [← and_iff_right (b := rank _ _ d < _) hmem, ← (ranks_devices t uid).mem_take, keptDevices,
      List.mem_map]
    constructor
    · rintro ⟨d', hd', heq⟩
      have hd'' := (mem_devicesOf.mp (mem_orderBy.mp (List.mem_of_mem_take hd'))).1
      rwa [← Table.eq_of_key_eq hd'' hd heq]
    · exact fun h => ⟨d, h, rfl⟩
  by_cases hid : d.userId = uid
  · simp [hid, hkept hid]
  · simp [hid]

/-! ## A new cookie -/

/-- The cookies of an account with the new one. -/
theorem devicesOf_insertNew (t : Table DeviceRow DeviceRow.id) :
    devicesOf (t.insertNew (newDevice A uid now token)) uid =
      devicesOf t uid ++ [newDevice A uid now token t.nextRowid] := by
  rw [devicesOf, Table.rows_insertNew, List.filter_append, devicesOf]
  simp

/-- The rows before the new one are those with a later time: its id is the greatest. -/
theorem rank_newDevice (A : App) (token : Vector UInt8 32) (t : Table DeviceRow DeviceRow.id) :
    rank newerFirst (devicesOf (t.insertNew (newDevice A uid now token)) uid)
      (newDevice A uid now token t.nextRowid) =
        t.rows.countP fun d => d.userId = uid && now < d.createdAt := by
  rw [rank, devicesOf_insertNew, List.countP_append, List.countP_singleton, devicesOf,
    List.countP_filter]
  rw [(ranks_devices t uid).refl, Bool.not_true, if_neg Bool.false_ne_true, Nat.add_zero]
  apply List.countP_congr
  intro d hd
  have hid : d.id < t.nextRowid := Table.lt_nextRowid hd
  simp only [Bool.and_eq_true, Bool.not_eq_true', newerFirst_eq_false, decide_eq_true_eq]
  grind

theorem devicesOf_evictDevices (t : Table DeviceRow DeviceRow.id) :
    devicesOf (evictDevices t uid) uid =
      (devicesOf t uid).filter fun d => rank newerFirst (devicesOf t uid) d < devicesKept := by
  have hrows : devicesOf (evictDevices t uid) uid =
      (devicesOf t uid).filter fun d => d.userId ≠ uid ∨ d.id ∈ keptDevices t uid := by
    rw [devicesOf, evictDevices, Table.delete, List.filter_filter, devicesOf, List.filter_filter]
    refine List.filter_congr fun d _ => ?_
    by_cases hid : d.userId = uid <;> simp [hid]
  rw [hrows]
  refine List.filter_congr fun d hd => ?_
  obtain ⟨hmem, hid⟩ := mem_devicesOf.mp hd
  have hiff : d ∈ evictDevices t uid ↔ _ := mem_evictDevices_iff
  rw [evictDevices, Table.mem_delete, and_iff_right hmem, and_iff_right hmem] at hiff
  simpa [hid] using hiff

theorem evictDevices_others (t : Table DeviceRow DeviceRow.id) :
    ((evictDevices (t.insertNew (newDevice A uid now token)) uid).rows.filter fun d =>
      d.userId ≠ uid) =
      t.rows.filter fun d => d.userId ≠ uid := by
  rw [evictDevices, Table.delete, List.filter_filter, Table.rows_insertNew, List.filter_append]
  simp only [List.filter_cons, List.filter_nil]
  rw [if_neg (by simp), List.append_nil]
  refine List.filter_congr fun d _ => ?_
  by_cases hid : d.userId = uid <;> simp [hid]

/-- The new row is kept exactly if fewer than ten rows of the account carry a later time. -/
theorem newDevice_mem_evictDevices_iff (A : App) (token : Vector UInt8 32)
    (t : Table DeviceRow DeviceRow.id) :
    (∃ id, newDevice A uid now token id ∈ evictDevices
      (t.insertNew (newDevice A uid now token)) uid ∧ ∀ d ∈ t, d.id < id) ↔
    (t.rows.countP fun d => d.userId = uid && now < d.createdAt) < devicesKept := by
  rw [← rank_newDevice A token]
  constructor
  · rintro ⟨id, hid, hgreatest⟩
    obtain ⟨hmem, hrank⟩ := mem_evictDevices_iff.mp hid
    -- it is no row that was stored: its id is above theirs
    rcases Table.mem_insertNew.mp hmem with hmem | heq
    · exact absurd (hgreatest _ hmem) (lt_irrefl id)
    · rw [heq] at hrank
      exact hrank rfl
  · intro hrank
    exact ⟨_, mem_evictDevices_iff.mpr ⟨Table.mem_insertNew.mpr (.inr rfl), fun _ => hrank⟩,
      fun d => Table.lt_nextRowid⟩

/-- **A sign-in keeps its own device cookie**, for every stored set of device rows, exactly if fewer
than ten of the account carry a time after the clock's. The account then has at most ten rows and
the new one among them, the rows of other accounts are unchanged, and of its `k` rows the `k - 9`
oldest are gone. -/
theorem sign_in_keeps_its_cookie (h : addDevice A db uid now token = some db') :
    ((devicesOf db'.knownDevices uid).length ≤ 10 ∧
      (db'.knownDevices.rows.filter fun d => d.userId ≠ uid) =
        (db.knownDevices.rows.filter fun d => d.userId ≠ uid) ∧
      (∃ id, newDevice A uid now token id ∈ db'.knownDevices ∧ ∀ d ∈ db.knownDevices, d.id < id) ∧
      ((devicesOf db.knownDevices uid).filter fun d => d ∉ db'.knownDevices.rows).length =
        (devicesOf db.knownDevices uid).length - 9 ∧
      ∀ d ∈ devicesOf db.knownDevices uid, d ∉ db'.knownDevices →
        ∀ d' ∈ devicesOf db.knownDevices uid, d' ∈ db'.knownDevices →
          d.createdAt < d'.createdAt ∨ d.createdAt = d'.createdAt ∧ d.id < d'.id) ↔
    (db.knownDevices.rows.countP fun d => d.userId = uid && now < d.createdAt) < devicesKept := by
  rw [addDevice_eq_some h]
  dsimp only
  generalize db.knownDevices = t
  rw [newDevice_mem_evictDevices_iff]
  refine ⟨fun hall => hall.2.2.1, fun hclock => ?_⟩
  have H := ranks_devices (t.insertNew (newDevice A uid now token)) uid
  have hold : ∀ d ∈ devicesOf t uid, d ∈ evictDevices
      (t.insertNew (newDevice A uid now token)) uid ↔
      rank newerFirst (devicesOf (t.insertNew (newDevice A uid now token)) uid) d <
        devicesKept := by
    intro d hd
    obtain ⟨hmem, hid⟩ := mem_devicesOf.mp hd
    rw [mem_evictDevices_iff, Table.mem_insertNew, and_iff_right (.inl hmem), hid]
    exact ⟨fun h => h rfl, fun h _ => h⟩
  have hlen := H.length_filter_rank (n := devicesKept)
  refine ⟨?_, ?_, hclock, ?_, ?_⟩
  · rw [devicesOf_evictDevices, hlen]
    exact Nat.min_le_left _ _
  · exact evictDevices_others t
  · have hgone : ((devicesOf t uid).filter fun d =>
          d ∉ (evictDevices (t.insertNew (newDevice A uid now token)) uid).rows) =
        (devicesOf t uid).filter fun d =>
          ¬rank newerFirst (devicesOf (t.insertNew (newDevice A uid now token)) uid) d <
            devicesKept :=
      List.filter_congr fun d hd => decide_eq_decide.mpr (not_congr (hold d hd))
    rw [hgone]
    rw [← rank_newDevice A token] at hclock
    rw [devicesOf_insertNew] at H hclock ⊢
    exact H.length_filter_not_rank hclock
  · intro d hd hgone d' hd' hkept
    rw [hold d hd, not_lt] at hgone
    exact newerFirst_eq_false.mp (H.lt_of_rank ((hold d' hd').mp hkept) hgone)

/-! ## Ten cookies, and a clock before or after them -/

namespace TenDevices

/-- Ten cookies of account 1, one second apart from `first` on. -/
def devices (first : Time) : Table DeviceRow DeviceRow.id where
  rows := (List.range 10).map fun i => ⟨i + 1, 1, [UInt8.ofNat i], first + i⟩
  nodup := by
    rw [List.map_map]
    exact List.nodup_range.map Nat.succ_injective

/-- A database with ten device rows. -/
def stored (first : Time) : Db := ⟨.empty, .empty, devices first, .empty, .empty, .empty, []⟩

/-- The token drawn for the cookie. -/
def drawn : Vector UInt8 32 := .replicate 32 7

theorem added (now : Time) : addDevice App.sample (stored 100) 1 now drawn = some { stored 100 with
    knownDevices := evictDevices ((devices 100).insertNew (newDevice App.sample 1 now drawn)) 1 } :=
  if_neg (by decide)

end TenDevices

open TenDevices in
theorem sign_in_keeps_its_cookie_ten :
    ∃ db', addDevice App.sample (stored 100) 1 109 drawn = some db' ∧
      (devicesOf db'.knownDevices 1).length ≤ 10 ∧
      ∃ id, newDevice App.sample 1 109 drawn id ∈ db'.knownDevices := by
  obtain ⟨hlen, -, ⟨id, hid, -⟩, -⟩ :=
    (sign_in_keeps_its_cookie (added 109)).mpr (by decide)
  exact ⟨_, added 109, hlen, id, hid⟩

open TenDevices in
/-- With ten cookies of a later time the new one is the one that goes. -/
theorem evicted_at_once :
    ∃ db', addDevice App.sample (stored 100) 1 99 drawn = some db' ∧
      (∀ id, newDevice App.sample 1 99 drawn id ∉ db'.knownDevices) ∧
      db'.knownDevices.rows = (stored 100).knownDevices.rows := by
  have hrows : (evictDevices ((devices 100).insertNew (newDevice App.sample 1 99 drawn)) 1).rows =
      (devices 100).rows := by decide
  have htimes : ∀ d ∈ (devices 100).rows, d.createdAt ≠ 99 := by decide
  refine ⟨_, added 99, fun id hid => ?_, hrows⟩
  rw [Table.mem_def, hrows] at hid
  exact htimes _ hid rfl

end Kohaku
