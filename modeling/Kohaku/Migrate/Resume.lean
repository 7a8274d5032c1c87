import Kohaku.Migrate.Prepare

/-!
# Interrupted upgrades

The database after any number of starts, each stopped anywhere or not at all, is the one an
undisturbed upgrade passes through: some migrations above the starting version were applied once
each, in order. A start changes the database only by the transactions of its migrations
(`applyAll_ends`), and by completing a missing keycheck. The latter happens when a migration left
`meta` without its row, so the statement is for migrations that do not (`KeepsKeycheck`);
`keycheck_comes_back` shows what happens with one that does.
-/

namespace Kohaku.Migrate

open Sql Fallible

variable {δ : Type} (S : Sqlite δ) (key : Bytes)

/-- The migrations one after the other, the keycheck recorded at `t`; `none` if one fails. -/
def upgrade (t : Time) : List (Migration δ) → δ → Option δ
  | [], db => some db
  | m :: ms, db => (applyInTransaction S key m t db).toOption.bind (upgrade t ms)

/-- There is a table `meta` without a keycheck. -/
def Sqlite.Lacks (db : δ) : Prop := S.storedMetaExists db = true ∧ S.selectKeycheck db = some none

/-- The migration leaves no `meta` without its keycheck. -/
def KeepsKeycheck (m : Migration δ) : Prop :=
  ∀ db db', ¬S.Lacks db → m.sql db = some db' → ¬S.Lacks db'

variable {S key} {migrations ms ms' : List (Migration δ)} {m : Migration δ} {start : Start}
  {db db' : δ} {t t' : Time} {v k : Nat}

/-! ## The undisturbed upgrade -/

theorem upgrade_append : upgrade S key t (ms ++ ms') db = (upgrade S key t ms db).bind
    (upgrade S key t ms') := by
  induction ms generalizing db with
  | nil => rfl
  | cons m ms ih =>
    rw [List.cons_append, upgrade, upgrade, Option.bind_assoc]
    exact Option.bind_congr fun db' _ => ih

theorem applyInTransaction_ok (h : applyInTransaction S key m t db = .ok db') :
    ∃ db₁ db₂, m.sql db = some db₁ ∧ db' = S.setUserVersion db₂ m.version ∧
      (m.version = 1 ∧ S.insertKeycheck db₁ key t = some db₂ ∨ m.version ≠ 1 ∧ db₂ = db₁) := by
  unfold applyInTransaction at h
  cases hsql : m.sql db with
  | none =>
    rw [hsql] at h
    cases h
  | some db₁ =>
    rw [hsql] at h
    by_cases hone : m.version = 1
    · cases hins : S.insertKeycheck db₁ key t with
      | none => simp [hone, hins, bind, Except.bind] at h
      | some db₂ =>
        simp only [hone, hins, bind, Except.bind, Option.elim, if_true] at h
        split at h
        · cases h
        · cases h
          exact ⟨db₁, db₂, rfl, by rw [hone], .inl ⟨hone, hins⟩⟩
    · simp only [hone, bind, Except.bind, Option.elim, if_false] at h
      split at h
      · cases h
      · cases h
        exact ⟨db₁, db₁, rfl, rfl, .inr ⟨hone, rfl⟩⟩

/-- Only migration 1 looks at the clock. -/
theorem applyInTransaction_time (h : m.version ≠ 1) :
    applyInTransaction S key m t db = applyInTransaction S key m t' db := by
  simp only [applyInTransaction, if_neg h]

theorem upgrade_time (h : ∀ m ∈ ms, m.version ≠ 1) :
    upgrade S key t ms db = upgrade S key t' ms db := by
  induction ms generalizing db with
  | nil => rfl
  | cons m ms ih =>
    rw [upgrade, upgrade, applyInTransaction_time (h m List.mem_cons_self)]
    exact Option.bind_congr fun db' _ => ih fun m hm => h m (List.mem_cons_of_mem _ hm)

theorem not_lacks_set (h : ¬S.Lacks db) (n : Nat) : ¬S.Lacks (S.setUserVersion db n) := by
  rwa [Sqlite.Lacks, S.metaExists_set, S.selectKeycheck_set]

theorem not_lacks_applied (hk : m.version ≠ 1 → KeepsKeycheck S m) (hdb : ¬S.Lacks db)
    (h : applyInTransaction S key m t db = .ok db') : ¬S.Lacks db' := by
  obtain ⟨db₁, db₂, hsql, rfl, ⟨-, hins⟩ | ⟨hone, rfl⟩⟩ := applyInTransaction_ok h
  · refine not_lacks_set (fun hl => ?_) _
    rw [Sqlite.Lacks, S.selectKeycheck_insert hins] at hl
    cases hl.2
  · exact not_lacks_set (hk hone _ _ hdb hsql) _

theorem userVersion_applied (h : applyInTransaction S key m t db = .ok db') :
    S.userVersion db' = m.version := by
  obtain ⟨db₁, db₂, -, rfl, -⟩ := applyInTransaction_ok h
  exact S.userVersion_set db₂ m.version

theorem upgrade_cons : upgrade S key t (m :: ms) db = some db' ↔
    ∃ db₁, applyInTransaction S key m t db = .ok db₁ ∧ upgrade S key t ms db₁ = some db' := by
  rw [upgrade]
  cases applyInTransaction S key m t db with
  | error e => simp [Except.toOption]
  | ok db₁ => simp [Except.toOption]

theorem not_lacks_upgrade (hk : ∀ m ∈ ms, m.version ≠ 1 → KeepsKeycheck S m) (hdb : ¬S.Lacks db)
    (h : upgrade S key t ms db = some db') : ¬S.Lacks db' := by
  induction ms generalizing db with
  | nil =>
    cases h
    exact hdb
  | cons m ms ih =>
    obtain ⟨db₁, h₁, h⟩ := upgrade_cons.mp h
    apply ih (fun m hm => hk m (List.mem_cons_of_mem _ hm)) _ h
    exact not_lacks_applied (hk m List.mem_cons_self) hdb h₁

/-! ## Numbered migrations -/

namespace Numbered

theorem version (H : Numbered ms) {i : Nat} (hi : i < ms.length) : ms[i].version = i + 1 := by
  have hget : (ms.map Migration.version)[i]? = (List.range' 1 ms.length)[i]? := by rw [H]
  simp only [List.getElem?_map, List.getElem?_eq_getElem hi, Option.map_some] at hget
  rw [List.getElem?_eq_getElem (by simpa using hi), List.getElem_range', Option.some.injEq] at hget
  omega

theorem take (H : Numbered ms) (k : Nat) : Numbered (ms.take k) := by
  apply List.ext_getElem
  · simp
  · intro i hi hi'
    rw [List.length_map, List.length_take] at hi
    rw [List.getElem_map, List.getElem_take, H.version (by omega), List.getElem_range']
    omega

/-- The migrations above a version. -/
theorem filter_lt (H : Numbered ms) (v : Nat) : (ms.filter fun m => v < m.version) = ms.drop v := by
  nth_rewrite 1 [← List.take_append_drop v ms]
  rw [List.filter_append, List.filter_eq_nil_iff.mpr, List.filter_eq_self.mpr, List.nil_append]
  · intro m hm
    obtain ⟨j, hj, rfl⟩ := List.mem_drop_iff_getElem.mp hm
    rw [H.version (by omega), decide_eq_true_eq]
    omega
  · intro m hm
    obtain ⟨j, hj, rfl⟩ := List.mem_take_iff_getElem.mp hm
    rw [H.version (by omega), decide_eq_true_eq]
    omega

theorem filter_le (H : Numbered ms) (k : Nat) : (ms.filter fun m => m.version ≤ k) = ms.take k := by
  nth_rewrite 1 [← List.take_append_drop k ms]
  rw [List.filter_append, List.filter_eq_self.mpr, List.filter_eq_nil_iff.mpr, List.append_nil]
  · intro m hm
    obtain ⟨j, hj, rfl⟩ := List.mem_drop_iff_getElem.mp hm
    rw [H.version (by omega), decide_eq_true_eq]
    omega
  · intro m hm
    obtain ⟨j, hj, rfl⟩ := List.mem_take_iff_getElem.mp hm
    rw [H.version (by omega), decide_eq_true_eq]
    omega

/-- The migrations above `v` up to `k`. -/
theorem filter_between (H : Numbered ms) (v k : Nat) :
    (ms.filter fun m => v < m.version && m.version ≤ k) = (ms.take k).drop v := by
  rw [← (H.take k).filter_lt v, ← H.filter_le k, List.filter_filter]

end Numbered

/-- The version after the migrations above `v` up to `k`. -/
theorem userVersion_upgrade (H : Numbered migrations) (hvk : v ≤ k) (hk : k ≤ migrations.length)
    (hdb : S.userVersion db = v) (h : upgrade S key t ((migrations.take k).drop v) db = some db') :
    S.userVersion db' = k := by
  rcases hvk.eq_or_lt with rfl | hlt
  · rw [List.drop_eq_nil_of_le (List.length_take_le v migrations), upgrade, Option.some.injEq] at h
    rw [← h, hdb]
  · -- the last migration sets the version
    obtain ⟨k, rfl⟩ := Nat.exists_eq_add_of_lt (Nat.zero_lt_of_lt hlt)
    rw [Nat.zero_add] at hk hlt h ⊢
    have hlen : v ≤ (migrations.take k).length := by
      rw [List.length_take]
      omega
    rw [List.take_succ_eq_append_getElem hk, List.drop_append_of_le_length hlen, upgrade_append,
      Option.bind_eq_some_iff] at h
    obtain ⟨db₁, -, hlast⟩ := h
    obtain ⟨db₂, happly, hrest⟩ := upgrade_cons.mp hlast
    cases hrest
    rw [userVersion_applied happly, H.version]

/-! ## One start -/

theorem frame_step {s : Step} {error : MigrateError} {effect : Data δ → Data δ}
    (h : ∀ d, (effect d).db = d.db) : Frame Data.db (step start s error effect) :=
  Frame.attempt h

theorem frame_removeCopies (names : List (Nat × Bytes)) :
    Frame Data.db (@removeCopies δ start names) := by
  induction names with
  | nil => exact Frame.pure
  | cons name names ih =>
    refine (frame_step ?_).bind fun _ => ih
    exact fun _ => rfl

theorem frame_ensureBackups : Frame Data.db (@ensureBackups δ start) := by
  refine Frame.get.bind fun _ => (frame_step ?_).bind fun _ => Frame.attempt ?_
  · exact fun _ => rfl
  · exact fun _ => rfl

theorem frame_writeCopy (old : Nat) (tmp : Bytes) : Frame Data.db (@writeCopy δ start old tmp) := by
  refine (frame_step ?_).bind fun _ => (frame_step ?_).bind fun _ => Frame.get.bind fun _ =>
    (Frame.attempt ?_).bind fun _ => (frame_step ?_).bind fun _ => frame_step ?_
  all_goals exact fun _ => rfl

theorem frame_prune : Frame Data.db (@prunePreMigrationCopies δ start) := by
  refine (frame_step ?_).bind fun _ => Frame.get.bind fun _ =>
    (frame_removeCopies _).bind fun _ => Frame.attempt ?_
  · exact fun _ => rfl
  · exact fun _ => rfl

/-- The pre-migration copy leaves the database. -/
theorem frame_preMigrationCopy (old : Nat) : Frame Data.db (@preMigrationCopy δ start old) := by
  refine frame_ensureBackups.bind fun _ => Frame.get.bind fun d => (Frame.attempt ?_).bind fun _ =>
    (frame_step ?_).bind fun _ => ((frame_writeCopy old _).onErrorWith ?_).bind fun _ => frame_prune
  · exact fun _ => rfl
  · exact fun _ => rfl
  · intro e d
    split <;> rfl

theorem apply_ends : Ends (fun d => d.db = db) (apply S key start m)
    (fun _ d => applyInTransaction S key m start.now db = .ok d.db)
    fun _ d => d.db = db ∨ applyInTransaction S key m start.now db = .ok d.db := by
  refine ((frame_step ?_ db).mono_error fun _ d hd => .inl hd).bind fun _ => ?_
  · exact fun _ => rfl
  -- the transaction keeps its result until the foreign keys are on again
  apply Ends.bind (Q := fun result d =>
    (result = .ok () ∧ applyInTransaction S key m start.now db = .ok d.db) ∨
    (∃ e, result = .error e) ∧ d.db = db)
  · refine ((Frame.attempt ?_ db).mono_error fun _ d hd => .inl hd).bind fun _ =>
      Ends.modifyGet fun d hd => ?_
    · exact fun _ => rfl
    split
    · exact .inr ⟨⟨_, rfl⟩, hd⟩
    · rw [← hd]
      cases happly : applyInTransaction S key m start.now d.db with
      | ok db' => exact .inl ⟨rfl, rfl⟩
      | error e => exact .inr ⟨⟨_, rfl⟩, rfl⟩
  · intro result
    refine (Ends.attempt (Q := fun d =>
      (result = .ok () ∧ applyInTransaction S key m start.now db = .ok d.db) ∨
      (∃ e, result = .error e) ∧ d.db = db) ?_ ?_).bind fun _ => ?_
    · exact fun _ d hd => hd
    · rintro - d (⟨-, hd⟩ | ⟨-, hd⟩)
      · exact .inr hd
      · exact .inl hd
    · cases result with
      | ok _ =>
        refine Ends.pure fun d hd => ?_
        rcases hd with ⟨-, hd⟩ | ⟨⟨e, he⟩, -⟩
        · exact hd
        · cases he
      | error e =>
        refine Ends.throw fun d hd => ?_
        rcases hd with ⟨he, -⟩ | ⟨-, hd⟩
        · cases he
        · exact .inl hd

theorem applyAll_ends : Ends (fun d => d.db = db) (applyAll S key start ms)
    (fun _ d => upgrade S key start.now ms db = some d.db)
    fun _ d => ∃ i ≤ ms.length, upgrade S key start.now (ms.take i) db = some d.db := by
  induction ms generalizing db with
  | nil => exact Ends.pure fun d hd => congrArg some hd.symm
  | cons m ms ih =>
    refine (apply_ends.mono_error fun _ d hd => ?_).bind fun _ => ?_
    · rcases hd with hd | hd
      · exact ⟨0, Nat.zero_le _, congrArg some hd.symm⟩
      · refine ⟨1, Nat.le_add_left 1 _, ?_⟩
        rw [List.take_succ_cons, List.take_zero]
        exact upgrade_cons.mpr ⟨_, hd, rfl⟩
    · refine Ends.of_state fun d hd => ih.mono (fun _ hs => congrArg Data.db hs) ?_ ?_
      · exact fun _ d' hd' => upgrade_cons.mpr ⟨_, hd, hd'⟩
      · rintro _ d' ⟨i, hi, hd'⟩
        refine ⟨i + 1, Nat.succ_le_succ hi, ?_⟩
        rw [List.take_succ_cons]
        exact upgrade_cons.mpr ⟨_, hd, hd'⟩

/-- With its keycheck stored or without `meta`, the check leaves the database. -/
theorem checkKeycheck_ends (hdb : ¬S.Lacks db) :
    Ends (fun d => d.db = db) (checkKeycheck S key start)
    (fun _ d => d.db = db) fun _ d => d.db = db := by
  refine (frame_step ?_ db).bind fun _ => Ends.read fun d hd => ?_
  · exact fun _ => rfl
  simp only [hd]
  split
  · exact Ends.throw fun _ hd => hd
  · exact Frame.attempt (fun _ => rfl) db
  · rename_i hnone
    have hmeta : S.storedMetaExists db = false := by
      rw [Sqlite.storedKeycheck] at hnone
      rw [← Bool.not_eq_true]
      exact fun htrue => hdb ⟨htrue, by rwa [if_pos htrue] at hnone⟩
    refine (Ends.attempt (Q := fun _ => False) ?_ ?_).bind fun _ => Ends.iff_exec.mpr
      fun _ h => h.elim
    · intro h
      rw [hmeta] at h
      cases h
    · exact fun _ _ hd => hd

theorem beforeMigrations_ends (hdb : ¬S.Lacks db) :
    Ends (fun d => d.db = db) (beforeMigrations S key migrations start)
      (fun version d => d.db = db ∧ version = S.userVersion db) fun _ d => d.db = db := by
  have hreturn : Ends (fun d => d.db = db) (pure (S.userVersion db) : Prepare δ Nat)
      (fun version d => d.db = db ∧ version = S.userVersion db) fun _ d => d.db = db :=
    Ends.pure fun _ hd => ⟨hd, rfl⟩
  refine (frame_step ?_ db).bind fun _ => Ends.read fun d hd => ?_
  · exact fun _ => rfl
  simp only [hd]
  refine (Frame.attempt ?_ db).bind fun _ => ?_
  · exact fun _ => rfl
  split
  · refine (frame_step ?_ db).bind fun _ => Ends.read fun d _ => (Frame.attempt ?_ db).bind
      fun _ => hreturn
    · exact fun _ => rfl
    · exact fun _ => rfl
  · refine (checkKeycheck_ends hdb).bind fun _ => ?_
    split
    · exact (frame_preMigrationCopy _ db).bind fun _ => hreturn
    · exact hreturn

/-- One start applies the migrations above the version, or with an error some of them. -/
theorem prepare_ends (hdb : ¬S.Lacks db) (hnum : Numbered migrations) :
    Ends (fun d => d.db = db) (prepare S key migrations start)
      (fun _ d => upgrade S key start.now (migrations.drop (S.userVersion db)) db = some d.db)
      fun _ d => ∃ i ≤ migrations.length - S.userVersion db,
        upgrade S key start.now ((migrations.drop (S.userVersion db)).take i) db = some d.db := by
  refine ((beforeMigrations_ends hdb).mono_error fun _ d hd => ?_).bind fun version => ?_
  · exact ⟨0, Nat.zero_le _, congrArg some hd.symm⟩
  · refine Ends.of_state fun d hd => ?_
    obtain ⟨hdb, rfl⟩ := hd
    rw [show (migrations.filter fun m => m.version > S.userVersion db) = _ from hnum.filter_lt _]
    refine applyAll_ends.mono (fun _ hs => (congrArg Data.db hs).trans hdb) (fun _ _ hd => hd) ?_
    rintro _ d ⟨i, hi, hd⟩
    exact ⟨i, by rwa [List.length_drop] at hi, hd⟩

/-! ## All starts -/

variable (S key migrations) in
/-- Some of the migrations above the version of `db₀` were applied. -/
def Reached (db₀ db : δ) : Prop :=
  ∃ k t, S.userVersion db₀ ≤ k ∧ k ≤ migrations.length ∧ S.userVersion db = k ∧
    upgrade S key t ((migrations.take k).drop (S.userVersion db₀)) db₀ = some db

variable {db₀ : δ}

theorem take_drop_add {α : Type} {l : List α} {v k : Nat} (hvk : v ≤ k)
    (hk : k ≤ l.length) (i : Nat) :
    (l.take (k + i)).drop v = (l.take k).drop v ++ (l.drop k).take i := by
  rw [List.take_add, List.drop_append_of_le_length]
  rw [List.length_take]
  omega

/-- Going on from where an earlier start was stopped: the times differ only if nothing was applied
before, or migration 1 was. -/
theorem upgrade_from (hnum : Numbered migrations) (hvk : S.userVersion db₀ ≤ k)
    (hk : k ≤ migrations.length)
    (h : upgrade S key t ((migrations.take k).drop (S.userVersion db₀)) db₀ = some db) {i : Nat}
    (h' : upgrade S key t' ((migrations.drop k).take i) db = some db') :
    ∃ t, upgrade S key t ((migrations.take (k + i)).drop (S.userVersion db₀)) db₀ = some db' := by
  rcases hvk.eq_or_lt with rfl | hlt
  · refine ⟨t', ?_⟩
    rw [List.drop_eq_nil_of_le (List.length_take_le _ _), upgrade, Option.some.injEq] at h
    subst h
    rw [take_drop_add le_rfl hk, List.drop_eq_nil_of_le (List.length_take_le _ _),
      List.nil_append, h']
  · refine ⟨t, ?_⟩
    rw [take_drop_add hvk hk, upgrade_append, h, Option.bind_some, ← h']
    apply upgrade_time
    intro m hm
    obtain ⟨j, hj, rfl⟩ := List.mem_drop_iff_getElem.mp (List.mem_of_mem_take hm)
    rw [hnum.version (by omega)]
    omega

/-- **Step.** One start from a database that was reached leaves one, whether it is stopped or not;
if it succeeds, all migrations were applied. -/
theorem Reached.next (hnum : Numbered migrations)
    (hkeeps : ∀ m ∈ migrations, m.version ≠ 1 → KeepsKeycheck S m)
    (hdb₀ : ¬S.Lacks db₀) {d d' : Data δ} {result : Except MigrateError Unit}
    (h : Reached S key migrations db₀ d.db)
    (hrun : (prepare S key migrations start).exec d = (result, d')) :
    Reached S key migrations db₀ d'.db ∧ (result = .ok () →
      ∃ t, upgrade S key t (migrations.drop (S.userVersion db₀)) db₀ = some d'.db) := by
  obtain ⟨k, t, hvk, hk, hver, hup⟩ := h
  have hdb : ¬S.Lacks d.db := by
    apply not_lacks_upgrade _ hdb₀ hup
    exact fun m hm => hkeeps m (List.mem_of_mem_take (List.mem_of_mem_drop hm))
  obtain ⟨hok, herr⟩ := (prepare_ends hdb hnum).run (s := d) rfl
  rw [hver] at hok herr
  have hreached : ∀ i ≤ migrations.length - k,
      upgrade S key start.now ((migrations.drop k).take i) d.db = some d'.db →
      Reached S key migrations db₀ d'.db := by
    intro i hi hd'
    obtain ⟨t', ht'⟩ := upgrade_from hnum hvk hk hup hd'
    refine ⟨k + i, t', by omega, by omega, ?_, ht'⟩
    exact userVersion_upgrade hnum (by omega) (by omega) rfl ht'
  cases result with
  | error e =>
    obtain ⟨i, hi, hd'⟩ := herr e d' hrun
    exact ⟨hreached i hi hd', nofun⟩
  | ok =>
    have hd' := hok () d' hrun
    rw [← List.take_of_length_le (i := migrations.length - k) (l := migrations.drop k) (by simp)]
      at hd'
    refine ⟨hreached _ le_rfl hd', fun _ => ?_⟩
    obtain ⟨t', ht'⟩ := upgrade_from hnum hvk hk hup hd'
    rw [Nat.add_sub_cancel' hk, List.take_length] at ht'
    exact ⟨t', ht'⟩

variable (S key migrations) in
/-- The data after the starts. -/
def afterStarts (starts : List Start) (d : Data δ) : Data δ :=
  starts.foldl (fun d start => ((prepare S key migrations start).exec d).2) d

/-- **Run.** After any starts the database is one that was reached. -/
theorem Reached.afterStarts (hnum : Numbered migrations)
    (hkeeps : ∀ m ∈ migrations, m.version ≠ 1 → KeepsKeycheck S m) (hdb₀ : ¬S.Lacks db₀)
    {d : Data δ} (h : Reached S key migrations db₀ d.db) (starts : List Start) :
    Reached S key migrations db₀ (afterStarts S key migrations starts d).db := by
  induction starts generalizing d with
  | nil => exact h
  | cons start starts ih => exact ih (h.next hnum hkeeps hdb₀ rfl).1

/-! ## Refused databases -/

variable (S key migrations) in
/-- A database that is newer than the migrations, not Kohaku's or of another secret. -/
def Refused (db : δ) : Prop :=
  newest migrations < S.userVersion db ∨ S.userVersion db = 0 ∧ S.hasSchema db = true ∨
    ∃ stored, S.storedKeycheck db = some (some stored) ∧ stored ≠ key

theorem checkKeycheck_refuses {d : Data δ} {stored : Bytes}
    (hs : S.storedKeycheck d.db = some (some stored))
    (hne : stored ≠ key) : Ends (fun s => s = d) (checkKeycheck S key start) (fun _ _ => False)
      fun _ s => s = d := by
  refine (Ends.attempt (Q := fun s => s = d) (fun _ _ hs => hs) fun _ _ hs => hs).bind fun _ =>
    Ends.read fun s hs' => ?_
  subst hs'
  simp only [hs]
  apply Ends.attempt
  · intro h
    exact absurd hne (of_decide_eq_false h)
  · exact fun _ _ hs => hs

theorem beforeMigrations_refuses {d : Data δ} (h : Refused S key migrations d.db) :
    Ends (fun s => s = d) (beforeMigrations S key migrations start) (fun _ _ => False)
      fun _ s => s = d := by
  refine (Ends.attempt (Q := fun s => s = d) (fun _ _ hs => hs) fun _ _ hs => hs).bind fun _ =>
    Ends.read fun s hs => ?_
  subst hs
  refine (Ends.attempt (Q := fun s' => S.userVersion s.db ≤ newest migrations ∧ s' = s) ?_ ?_).bind
    fun _ =>
    Ends.assume fun hle => ?_
  · exact fun hle s' hs' => ⟨not_lt.mp (of_decide_eq_false hle), hs'⟩
  · exact fun _ _ hs => hs
  by_cases hzero : S.userVersion s.db = 0
  · have hschema : S.hasSchema s.db = true := by
      rcases h with hlt | ⟨-, hschema⟩ | ⟨stored, hstored, -⟩
      · omega
      · exact hschema
      · apply S.hasSchema_of_meta
        rw [← Bool.not_eq_false]
        intro hmeta
        rw [Sqlite.storedKeycheck, hmeta] at hstored
        cases hstored
    rw [if_pos hzero]
    refine (Ends.attempt (Q := fun s' => s' = s) (fun _ _ hs => hs) fun _ _ hs => hs).bind fun _ =>
      Ends.read fun s' hs' => ?_
    subst hs'
    refine (Ends.attempt (Q := fun _ => False) ?_ ?_).bind fun _ => Ends.iff_exec.mpr
      fun _ hs => hs.elim
    · intro hno
      rw [hschema] at hno
      cases hno
    · exact fun _ _ hs => hs
  · rw [if_neg hzero]
    rcases h with hlt | ⟨hz, -⟩ | ⟨stored, hstored, hne⟩
    · omega
    · exact absurd hz hzero
    · exact (checkKeycheck_refuses hstored hne).bind fun _ => Ends.iff_exec.mpr fun _ hs => hs.elim

/-- A refused database and the backups directory stay as they are. -/
theorem prepare_refuses {d : Data δ} (h : Refused S key migrations d.db) :
    ∃ error, (prepare S key migrations start).exec d = (.error error, d) := by
  have hends : Ends (fun s => s = d) (prepare S key migrations start) (fun _ _ => False)
      fun _ s => s = d :=
    (beforeMigrations_refuses h).bind fun _ => Ends.iff_exec.mpr fun _ hs => hs.elim
  obtain ⟨hok, herr⟩ := hends.run rfl
  rcases hrun : (prepare S key migrations start).exec d with ⟨⟨e⟩ | ⟨a⟩, d'⟩
  · exact ⟨e, by rw [herr e d' hrun]⟩
  · exact (hok a d' hrun).elim

/-- **Interrupted upgrades resume to the same database**, for every numbered list of migrations of
which none but the first leaves `meta` without a keycheck, and every database that is empty or holds
the keycheck. After any starts the version is some `k` between the old one and the newest, and the
database is that of applying the migrations up to `k` once each in order, for some time of the
keycheck; a start that succeeds leaves the database of applying all of them. A refused database and
the backups directory stay as they are. -/
theorem interrupted_upgrades_resume (S : Sqlite δ) (key : Bytes) (migrations : List (Migration δ))
    (d₀ : Data δ) {v : Nat} (hnum : Numbered migrations)
    (hkeeps : ∀ m ∈ migrations, m.version ≠ 1 → KeepsKeycheck S m) (hv : S.userVersion d₀.db = v)
    (hle : v ≤ migrations.length)
    (hdb : v = 0 ∧ S.hasSchema d₀.db = false ∨ S.storedKeycheck d₀.db = some (some key))
    (starts : List Start) :
    (∃ k t, v ≤ k ∧ k ≤ migrations.length ∧
      S.userVersion (afterStarts S key migrations starts d₀).db = k ∧
      upgrade S key t (migrations.filter fun m => v < m.version && m.version ≤ k) d₀.db =
        some (afterStarts S key migrations starts d₀).db) ∧
    (∀ start d, (prepare S key migrations start).exec (afterStarts S key migrations starts d₀) =
      (.ok (), d) →
      ∃ t, upgrade S key t (migrations.filter fun m => v < m.version) d₀.db = some d.db) ∧
    ∀ start d, (newest migrations < S.userVersion d.db ∨ S.userVersion d.db = 0 ∧
      S.hasSchema d.db = true ∨
        ∃ stored, S.storedKeycheck d.db = some (some stored) ∧ stored ≠ key) →
      ∃ error, (prepare S key migrations start).exec d = (.error error, d) := by
  subst hv
  have hlacks : ¬S.Lacks d₀.db := by
    rintro ⟨hmeta, hnone⟩
    rcases hdb with ⟨-, hschema⟩ | hstored
    · rw [S.hasSchema_of_meta hmeta] at hschema
      cases hschema
    · rw [Sqlite.storedKeycheck, if_pos hmeta, hnone] at hstored
      cases hstored
  have hstart : Reached S key migrations d₀.db d₀.db := by
    refine ⟨_, 0, le_rfl, hle, rfl, ?_⟩
    rw [List.drop_eq_nil_of_le (List.length_take_le _ _)]
    rfl
  have hafter := hstart.afterStarts hnum hkeeps hlacks starts
  refine ⟨?_, fun start d hrun => ?_, fun start d => prepare_refuses⟩
  · obtain ⟨k, t, hvk, hk, hver, hup⟩ := hafter
    exact ⟨k, t, hvk, hk, hver, by rw [hnum.filter_between]; exact hup⟩
  · rw [hnum.filter_lt]
    exact (hafter.next hnum hkeeps hlacks hrun).2 rfl

/-! ## A small database -/

namespace Tiny

/-- The version, the table `meta` with its row, and the other migrations applied. -/
structure Rows where
  version : Nat
  keycheck : Option (Option (Bytes × Time))
  applied : List Nat
  deriving DecidableEq

/-- A database of a version, a keycheck row and the migrations applied so far. -/
def sqlite : Sqlite Rows where
  userVersion := Rows.version
  setUserVersion db n := { db with version := n }
  hasSchema db := db.keycheck.isSome || !db.applied.isEmpty
  storedMetaExists db := db.keycheck.isSome
  selectKeycheck db := db.keycheck.map fun row => row.map Prod.fst
  insertKeycheck db key now :=
    if db.keycheck = some none then some { db with keycheck := some (some (key, now)) } else none
  violation _ := false
  hasSchema_of_meta h := by rw [h, Bool.true_or]
  userVersion_set _ _ := rfl
  metaExists_set _ _ := rfl
  selectKeycheck_set _ _ := rfl
  selectKeycheck_insert h := by
    obtain ⟨-, hdb⟩ := Option.ite_none_right_eq_some.mp h
    cases hdb
    rfl

/-- `CREATE TABLE meta`. -/
def create : Migration Rows where
  version := 1
  name := "0001_create".toList
  sql db := if db.keycheck = none then some { db with keycheck := some none } else none

/-- A migration that changes the contents. -/
def add : Migration Rows where
  version := 2
  name := "0002_add".toList
  sql db := some { db with applied := db.applied ++ [2] }

/-- `DELETE FROM meta`. -/
def forget : Migration Rows where
  version := 2
  name := "0002_forget".toList
  sql db := some { db with keycheck := db.keycheck.map fun _ => none }

/-- No database yet. -/
def empty : Data Rows := ⟨⟨0, none, []⟩, none⟩

/-- A start at a time that is killed at a step. -/
def killedAt (now : Time) (s : Step) : Start :=
  ⟨now, [], fun s' => if s' = s then some .killed else none⟩

/-- A start at which nothing fails. -/
def undisturbed (now : Time) : Start := ⟨now, [], fun _ => none⟩

end Tiny

open Tiny in
theorem interrupted_upgrades_resume_killed :
    ∃ d t, (prepare sqlite [7] [create, add] (undisturbed 20)).exec
        (afterStarts sqlite [7] [create, add] [killedAt 10 (.transaction 1)] empty) = (.ok (), d) ∧
      upgrade sqlite [7] t [create, add] empty.db = some d.db := by
  have hkeeps : ∀ m ∈ [create, add], m.version ≠ 1 → KeepsKeycheck sqlite m := by
    intro m hm hone
    rcases List.mem_pair.mp hm with rfl | rfl
    · exact absurd rfl hone
    · intro db db' hdb hsql
      cases hsql
      exact hdb
  obtain ⟨t, ht⟩ :=
    (interrupted_upgrades_resume sqlite [7] [create, add] empty rfl hkeeps rfl (Nat.zero_le _)
    (.inl ⟨rfl, rfl⟩) [killedAt 10 (.transaction 1)]).2.1 (undisturbed 20) _ rfl
  exact ⟨_, t, rfl, ht⟩

open Tiny in
/-- A migration that removes the keycheck, and a start killed right after it: the next start stores
the keycheck again, which no undisturbed upgrade does. -/
theorem keycheck_comes_back :
    ∃ d, (prepare sqlite [7] [create, forget] (undisturbed 20)).exec
        (afterStarts sqlite [7] [create, forget] [killedAt 10 (.foreignKeysOn 2)] empty) =
        (.ok (), d) ∧
      d.db.keycheck = some (some ([7], 20)) ∧
      ∀ t, upgrade sqlite [7] t [create, forget] empty.db = some ⟨2, some none, []⟩ :=
  ⟨_, rfl, rfl, fun _ => rfl⟩

end Kohaku.Migrate
