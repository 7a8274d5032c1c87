import Kohaku.Migrate.Resume
import Kohaku.Sql.Top

/-!
# Pre-migration copies

A migration on a database of version 1 or more is run only after its copy was written, and pruning
then leaves the two newest copies by the times in their names. The new copy is among them exactly if
at most one other carries a later time; with two such copies, written while the clock was ahead, it
is removed before the migration runs (`new_copy_pruned`).
-/

namespace Kohaku.Migrate

open Sql Fallible

variable {δ : Type} {dir dir' : Directory δ} {e : DirEntry δ} {start : Start} {old : Nat}
  {now : Time}

/-! ## Names -/

theorem padded_zero (hnow : 0 ≤ now) : padded 0 now = Nat.toDigits 10 now.toNat := by
  rw [padded, if_neg (not_lt.mpr hnow), List.leftpad, Nat.zero_sub, List.replicate_zero,
    List.nil_append]

theorem preMigrationTime_copyName (hnow : 0 ≤ now) (hlt : now < 2 ^ 63) :
    preMigrationTime (copyName old now) = some now.toNat := by
  have hdash : '-' ∉ Nat.toDigits 10 old := by
    intro h
    exact absurd (Nat.isDigit_of_mem_toDigits (by decide) (by decide) h) (by decide)
  have hprefix : ("pre-migrate-v".toList ++ Nat.toDigits 10 old ++ '-' :: padded 0 now ++
      ".db".toList).dropPrefix?
      "pre-migrate-v".toList = some (Nat.toDigits 10 old ++ '-' :: padded 0 now ++ ".db".toList) :=
    List.dropPrefix?_eq_some_iff.mpr ⟨_, by simp only [List.append_assoc], BEq.rfl⟩
  have hsuffix : (Nat.toDigits 10 old ++ '-' :: padded 0 now ++ ".db".toList).dropSuffix?
      ".db".toList = some (Nat.toDigits 10 old ++ '-' :: padded 0 now) :=
    List.dropSuffix?_eq_some_iff.mpr ⟨_, rfl, BEq.rfl⟩
  have hsplit : splitOnce '-' (Nat.toDigits 10 old ++ '-' :: padded 0 now) =
      some (Nat.toDigits 10 old, padded 0 now) := splitOnce_eq_some.mpr ⟨rfl, hdash⟩
  simp only [preMigrationTime, copyName, fromUtf8_asBytes, hprefix, hsuffix, hsplit,
    Option.bind_eq_bind, Option.bind_some]
  rw [padded_zero hnow, isDigits_toDigits, isDigits_toDigits, parseDigits_toDigits]
  · rfl
  · have hnat : now.toNat < 2 ^ 63 := (Int.toNat_lt hnow).mpr (by exact_mod_cast hlt)
    exact hnat.trans (by decide)

/-- A name with a time is that of a copy. -/
theorem of_preMigrationTime {name : Bytes} {time : Nat} (h : preMigrationTime name = some time) :
    ∃ version digits, isDigits version = true ∧ isDigits digits = true ∧
      name = asBytes ("pre-migrate-v".toList ++ version ++ '-' :: digits ++ ".db".toList) := by
  simp only [preMigrationTime, Option.bind_eq_bind, Option.bind_eq_some_iff] at h
  obtain ⟨text, htext, rest, hrest, rest', hrest', ⟨version, digits⟩, hsplit, h⟩ := h
  obtain ⟨p, rfl, hp⟩ := List.dropPrefix?_eq_some_iff.mp hrest
  obtain ⟨p', rfl, hp'⟩ := List.dropSuffix?_eq_some_iff.mp hrest'
  obtain ⟨rfl, -⟩ := splitOnce_eq_some.mp hsplit
  split at h
  · rename_i hdigits
    rw [Bool.and_eq_true] at hdigits
    refine ⟨version, digits, hdigits.1, hdigits.2, ?_⟩
    rw [asBytes_of_fromUtf8 htext, eq_of_beq hp, eq_of_beq hp']
    simp only [List.append_assoc, List.cons_append]
  · cases h

/-! ## Pruning -/

theorem mem_copies {c : Nat × Bytes} : c ∈ copies dir ↔
    ∃ e ∈ dir, e.node.isFile = true ∧ preMigrationTime e.name = some c.1 ∧ e.name = c.2 := by
  rw [copies, List.mem_filterMap]
  refine exists_congr fun e => and_congr_right fun _ => ?_
  cases hfile : e.node.isFile with
  | false => simp
  | true =>
    rw [if_pos rfl, Option.map_eq_some_iff]
    constructor
    · rintro ⟨time, htime, rfl⟩
      exact ⟨rfl, htime, rfl⟩
    · rintro ⟨-, htime, hname⟩
      exact ⟨c.1, htime, Prod.ext rfl hname⟩

theorem copyLe_eq_true {a b : Nat × Bytes} :
    copyLe a b = true ↔ a.1 < b.1 ∨ a.1 = b.1 ∧ a.2 ≤ b.2 := by
  simp [copyLe]

theorem ranks_copies (dir : Directory δ) : Ranks copyLe (copies dir) where
  total a b := by
    rw [copyLe_eq_true, copyLe_eq_true]
    rcases lt_trichotomy a.1 b.1 with hlt | heq | hlt
    · exact .inl (.inl hlt)
    · exact (List.le_total a.2 b.2).imp (fun h => .inr ⟨heq, h⟩) fun h => .inr ⟨heq.symm, h⟩
    · exact .inr (.inl hlt)
  trans {a b c} hab hbc := by
    rw [copyLe_eq_true] at hab hbc ⊢
    rcases hab with hab | ⟨hab, hab'⟩
    · left
      omega
    · rcases hbc with hbc | ⟨hbc, hbc'⟩
      · left
        omega
      · exact .inr ⟨hab.trans hbc, List.le_trans hab' hbc'⟩
  antisymm {a b} _ _ hab hba := by
    rw [copyLe_eq_true] at hab hba
    have htime : a.1 = b.1 := by omega
    refine Prod.ext htime (List.le_antisymm ?_ ?_)
    · rcases hab with hab | hab
      · omega
      · exact hab.2
    · rcases hba with hba | hba
      · omega
      · exact hba.2
  nodup := by
    refine (List.pairwise_map.mp dir.nodup).filterMap _ fun e e' hne c hc c' hc' heq => hne ?_
    have hname : ∀ {e : DirEntry δ} {c}, (if e.node.isFile then
        (preMigrationTime e.name).map fun time => (time, e.name) else none) = some c →
          c.2 = e.name := by
      intro e c h
      obtain ⟨-, h⟩ := Option.ite_none_right_eq_some.mp h
      obtain ⟨time, -, rfl⟩ := Option.map_eq_some_iff.mp h
      rfl
    rw [← hname hc, ← hname hc', heq]

/-- The entries that are too many: copies before the last two. -/
theorem mem_excessCopies {c : Nat × Bytes} : c ∈ excessCopies dir ↔
    c ∈ copies dir ∧ rank copyLe (copies dir) c < (copies dir).length - 2 :=
      (ranks_copies dir).mem_take

/-- `dir'` is `dir` without some of the copies that are too many. -/
structure Pruned (dir dir' : Directory δ) : Prop where
  sub : ∀ e ∈ dir', e ∈ dir
  excess : ∀ e ∈ dir, e ∉ dir' → ∃ c ∈ excessCopies dir, c.2 = e.name

/-- The directory has none of the copies. -/
def Without (names : List (Nat × Bytes)) (dir : Directory δ) : Prop :=
  ∀ c ∈ names, ∀ e ∈ dir, e.name ≠ c.2

theorem Without.mono {names : List (Nat × Bytes)} (h : Without names dir)
    (hsub : ∀ e ∈ dir', e ∈ dir) : Without names dir' :=
  fun c hc e he => h c hc e (hsub e he)

theorem removeCopies_ends {names : List (Nat × Bytes)} (gone : List (Nat × Bytes))
    (hnames : ∀ c ∈ names, c ∈ excessCopies dir) :
    Ends (fun d => ∃ dir', d.backups = some dir' ∧ Pruned dir dir' ∧ Without gone dir')
      (removeCopies start names)
      (fun _ d => ∃ dir', d.backups = some dir' ∧ Pruned dir dir' ∧ Without (names ++ gone) dir')
      fun _ d => ∃ dir', d.backups = some dir' ∧ Pruned dir dir' := by
  induction names generalizing gone with
  | nil => exact Ends.pure fun _ hd => hd
  | cons c names ih =>
    have hrest := ih (c :: gone) fun c hc => hnames c (List.mem_cons_of_mem _ hc)
    refine Ends.attempt_bind ?_ ?_ fun _ => hrest.mono (fun _ hd => hd) ?_ fun _ _ hd => hd
    · rintro - d ⟨dir', hdir', hp, -⟩
      exact ⟨dir', hdir', hp⟩
    · rintro - d ⟨dir', hdir', hp, hgone⟩
      have hsub : ∀ e ∈ dir'.delete fun e => e.name = c.2, e ∈ dir' :=
        fun _ => Table.mem_of_mem_delete
      refine ⟨dir'.delete fun e => e.name = c.2, by rw [Data.inBackups, hdir', Option.map_some],
        ⟨?_, ?_⟩, ?_⟩
      · exact fun e he => hp.sub e (hsub e he)
      · intro e he hgone
        by_cases hmem : e ∈ dir'
        · refine ⟨c, hnames c List.mem_cons_self, ?_⟩
          by_contra hne
          exact hgone (Table.mem_delete.mpr ⟨hmem, decide_eq_false (Ne.symm hne)⟩)
        · exact hp.excess e he hmem
      · intro c' hc' e he
        rcases List.mem_cons.mp hc' with rfl | hc'
        · exact of_decide_eq_false (Table.mem_delete.mp he).2
        · exact hgone.mono hsub c' hc' e he
    · rintro - d ⟨dir', hdir', hp, hgone⟩
      refine ⟨dir', hdir', hp, fun c' hc' => hgone c' ?_⟩
      simp only [List.cons_append, List.mem_cons, List.mem_append] at hc' ⊢
      tauto

/-- Pruning removes only copies that are too many, and all of them when it succeeds. -/
theorem prune_ends (dir : Directory δ) :
    Ends (fun d => d.backups = some dir) (prunePreMigrationCopies start)
    (fun _ d => ∃ dir', d.backups = some dir' ∧ Pruned dir dir' ∧ Without (excessCopies dir) dir')
    fun _ d => ∃ dir', d.backups = some dir' ∧ Pruned dir dir' := by
  have hself : Pruned dir dir := ⟨fun _ he => he, fun _ he hgone => absurd he hgone⟩
  refine (Ends.attempt (Q := fun d => d.backups = some dir) ?_ ?_).bind fun _ =>
    Ends.read fun d hd => ?_
  · exact fun _ _ hd => hd
  · exact fun _ d hd => ⟨dir, hd, hself⟩
  simp only [hd, Option.getD_some]
  refine ((removeCopies_ends [] fun c hc => hc).mono ?_ (fun _ _ hd => hd) fun _ _ hd => hd).bind
    fun _ => Ends.attempt ?_ ?_
  · exact fun d hd => ⟨dir, hd, hself, fun c hc => absurd hc List.not_mem_nil⟩
  · rintro - d ⟨dir', hdir', hp, hgone⟩
    rw [List.append_nil] at hgone
    exact ⟨dir', hdir', hp, hgone⟩
  · rintro - d ⟨dir', hdir', hp, -⟩
    exact ⟨dir', hdir', hp⟩

/-- A copy is the entry of its name. -/
theorem eq_of_mem_copies {c : Nat × Bytes} (hc : c ∈ copies dir) (he : e ∈ dir)
    (hname : c.2 = e.name) : e.node.isFile = true ∧ preMigrationTime e.name = some c.1 := by
  obtain ⟨e', he', hfile, htime, hname'⟩ := mem_copies.mp hc
  rw [← Table.eq_of_key_eq he' he (hname'.trans hname)]
  exact ⟨hfile, htime⟩

/-- A copy that is not too many is left. -/
theorem Pruned.kept (H : Pruned dir dir') {c : Nat × Bytes} (hc : c ∈ copies dir)
    (hex : c ∉ excessCopies dir) : c ∈ copies dir' := by
  obtain ⟨e, he, hfile, htime, hname⟩ := mem_copies.mp hc
  refine mem_copies.mpr ⟨e, ?_, hfile, htime, hname⟩
  by_contra hgone
  obtain ⟨c', hc', hname'⟩ := H.excess e he hgone
  have htime' := (eq_of_mem_copies (mem_excessCopies.mp hc').1 he hname').2
  have heq : c' = c := Prod.ext (Option.some.inj (htime'.symm.trans htime)) (hname'.trans hname)
  exact hex (heq ▸ hc')

/-- A removed entry was a copy, and two copies after it are left. -/
theorem Pruned.removed (H : Pruned dir dir') (he : e ∈ dir) (hgone : e ∉ dir') :
    e.node.isFile = true ∧ ∃ time, preMigrationTime e.name = some time ∧ ∃ a b, a ∈ copies dir' ∧
      b ∈ copies dir' ∧ a ≠ b ∧ copyLe a (time, e.name) = false ∧
      copyLe b (time, e.name) = false := by
  obtain ⟨c, hc, hname⟩ := H.excess e he hgone
  obtain ⟨hmem, hrank⟩ := mem_excessCopies.mp hc
  obtain ⟨hfile, htime⟩ := eq_of_mem_copies hmem he hname
  obtain ⟨a, b, ha, hb, hne, hra, hrb⟩ := (ranks_copies dir).exists_two hrank
  have hleft : ∀ x ∈ copies dir, (copies dir).length - 2 ≤ rank copyLe (copies dir) x →
      x ∈ copies dir' :=
    fun x hx hrx => H.kept hx fun hex => absurd (mem_excessCopies.mp hex).2 (not_lt.mpr hrx)
  refine ⟨hfile, c.1, htime, a, b, hleft a ha hra, hleft b hb hrb, hne, ?_, ?_⟩
  · rw [← hname]
    exact (ranks_copies dir).lt_of_rank hrank hra
  · rw [← hname]
    exact (ranks_copies dir).lt_of_rank hrank hrb

/-- A copy is too many when two others come after it. -/
theorem mem_excessCopies_iff {c : Nat × Bytes} (hc : c ∈ copies dir) :
    c ∈ excessCopies dir ↔ ¬(copies dir).countP (fun c' => !copyLe c' c) ≤ 1 := by
  have hall := (ranks_copies dir).rank_add_countP hc
  rw [mem_excessCopies, and_iff_right hc]
  omega

/-- Once pruning is done, a copy is left exactly if at most one copy comes after it. -/
theorem Pruned.mem_iff (H : Pruned dir dir') (hwithout : Without (excessCopies dir) dir')
    (he : e ∈ dir)
    (hfile : e.node.isFile = true) {time : Nat} (htime : preMigrationTime e.name = some time) :
    e ∈ dir' ↔ (copies dir).countP (fun c => !copyLe c (time, e.name)) ≤ 1 := by
  have hcopy : (time, e.name) ∈ copies dir := mem_copies.mpr ⟨e, he, hfile, htime, rfl⟩
  rw [← not_iff_not, ← mem_excessCopies_iff hcopy]
  constructor
  · intro hgone
    obtain ⟨c, hc, hname⟩ := H.excess e he hgone
    have htime' := (eq_of_mem_copies (mem_excessCopies.mp hc).1 he hname).2
    have heq : c = (time, e.name) := Prod.ext (Option.some.inj (htime'.symm.trans htime)) hname
    rwa [← heq]
  · exact fun hexcess hleft => hwithout _ hexcess e hleft rfl

/-! ## Writing the copy -/

/-- `dir'` is `dir` with a copy of `db` under `name`. -/
structure Written (dir : Directory δ) (name : Bytes) (db : δ) (dir' : Directory δ) : Prop where
  copy : ⟨name, .file (.copy db)⟩ ∈ dir'
  others : ∀ e, e.name ≠ name → (e ∈ dir' ↔ e ∈ dir)

/-- The copies after the new one are those that were there before. -/
theorem Written.countP_eq {db : δ} {name : Bytes} {time : Nat} (H : Written dir name db dir')
    (htime : preMigrationTime name = some time) :
    (copies dir').countP (fun c => !copyLe c (time, name)) =
      (copies dir).countP (fun c => !copyLe c (time, name)) := by
  rw [List.countP_eq_length_filter, List.countP_eq_length_filter]
  refine ((List.perm_ext_iff_of_nodup ((ranks_copies dir').nodup.filter _)
    ((ranks_copies dir).nodup.filter _)).mpr fun c => ?_).length_eq
  rw [List.mem_filter, List.mem_filter, mem_copies, mem_copies]
  refine and_congr_left fun hlater => exists_congr fun e => ?_
  -- the new copy does not come after itself
  have hother : preMigrationTime e.name = some c.1 → e.name = c.2 → e.name ≠ name := by
    intro htime' hname heq
    rw [heq, htime] at htime'
    have hself : c = (time, name) := Prod.ext (Option.some.inj htime').symm (hname.symm.trans heq)
    rw [hself, (ranks_copies dir').refl] at hlater
    cases hlater
  constructor
  · rintro ⟨he, hfile, htime', hname⟩
    exact ⟨(H.others e (hother htime' hname)).mp he, hfile, htime', hname⟩
  · rintro ⟨he, hfile, htime', hname⟩
    exact ⟨(H.others e (hother htime' hname)).mpr he, hfile, htime', hname⟩

theorem rename_eq_some {tmp target : Bytes} (h : rename tmp target dir = some dir') :
    ∃ entry, dir.get? tmp = some entry ∧
      dir' = (dir.delete fun e => e.name = tmp).put { entry with name := target } := by
  unfold rename at h
  split at h
  · cases h
  · cases h
  · rename_i entry hentry _
    cases h
    exact ⟨_, hentry, rfl⟩

theorem writeCopy_ends {db : δ} {tmp : Bytes} (hfree : dir.get? tmp = none) :
    Ends (fun d => d.db = db ∧ d.backups = some (dir.put ⟨tmp, .file (.data [])⟩))
      (writeCopy start old tmp)
      (fun _ d => d.db = db ∧ ∃ dir', d.backups = some dir' ∧
        Written dir (copyName old start.now) db dir')
      fun _ _ => True := by
  have htmp : ∀ e : DirEntry δ, e.name ≠ tmp →
      (e ∈ (dir.put ⟨tmp, .file (.data [])⟩).put ⟨tmp, .file (.copy db)⟩ ↔ e ∈ dir) := by
    intro e hne
    have hput : ∀ (dir : Directory δ) node, e ∈ dir.put ⟨tmp, node⟩ ↔ e ∈ dir := by
      intro dir node
      rw [Table.mem_put, and_iff_left hne]
      exact or_iff_left fun heq => hne (congrArg DirEntry.name heq)
    rw [hput, hput]
  refine (Ends.attempt (Q := fun d => d.db = db ∧
    d.backups = some ((dir.put ⟨tmp, .file (.data [])⟩).put ⟨tmp, .file (.copy db)⟩)) ?_ ?_).bind
      fun _ => ?_
  · rintro - d ⟨hdb, hdir⟩
    exact ⟨hdb, by rw [Data.inBackups, hdir, hdb, Option.map_some]⟩
  · exact fun _ _ _ => trivial
  refine (Ends.attempt (Q := fun d => d.db = db ∧
    d.backups = some ((dir.put ⟨tmp, .file (.data [])⟩).put ⟨tmp, .file (.copy db)⟩)) ?_ ?_).bind
      fun _ => ?_
  · exact fun _ _ hd => hd
  · exact fun _ _ _ => trivial
  refine Ends.read fun d hd => ?_
  simp only [hd.2, Option.bind_some]
  generalize hrenamed : rename tmp (copyName old start.now)
    ((dir.put ⟨tmp, .file (.data [])⟩).put ⟨tmp, .file (.copy db)⟩) = renamed
  refine (Ends.attempt (Q := fun d => renamed.isNone = false ∧ d.db = db) ?_ ?_).bind fun _ => ?_
  · exact fun hsome d hd => ⟨hsome, hd.1⟩
  · exact fun _ _ _ => trivial
  refine Ends.assume fun hsome => ?_
  obtain ⟨dir', rfl⟩ := Option.isSome_iff_exists.mp (by rwa [Option.isNone_eq_false_iff] at hsome)
  have hwritten : Written dir (copyName old start.now) db dir' := by
    obtain ⟨entry, hentry, rfl⟩ := rename_eq_some hrenamed
    rw [Table.get?_put_self] at hentry
    cases hentry
    refine ⟨Table.mem_put.mpr (.inr rfl), fun e hne => ?_⟩
    rw [Table.mem_put, and_iff_left hne, Table.mem_delete, decide_eq_false_iff_not]
    constructor
    · rintro (⟨he, hname⟩ | rfl)
      · exact (htmp e hname).mp he
      · exact absurd rfl hne
    · intro he
      have hname := Table.get?_eq_none.mp hfree e he
      exact .inl ⟨(htmp e hname).mpr he, hname⟩
  refine (Ends.attempt (Q := fun d => d.db = db ∧ ∃ dir', d.backups = some dir' ∧
    Written dir (copyName old start.now) db dir') ?_ ?_).bind fun _ => Ends.attempt ?_ ?_
  · exact fun _ d hd => ⟨hd, dir', rfl, hwritten⟩
  · exact fun _ _ _ => trivial
  · exact fun _ _ hd => hd
  · exact fun _ _ _ => trivial

theorem ensureBackups_ends {db : δ} :
    Ends (fun d => d.db = db ∧ d.backups.getD .empty = dir) (ensureBackups start)
    (fun _ d => d.db = db ∧ d.backups = some dir) fun _ _ => True := by
  refine Ends.read fun d _ =>
    (Ends.attempt (Q := fun d => d.db = db ∧ d.backups = some dir) ?_ ?_).bind
    fun _ => Ends.attempt ?_ ?_
  · exact fun _ d hd => ⟨hd.1, congrArg some hd.2⟩
  · exact fun _ _ _ => trivial
  · exact fun _ _ hd => hd
  · exact fun _ _ _ => trivial

theorem get?_of_freeName {nonces : List (Vector UInt8 8)} {tmp : Bytes}
    (h : freeName dir nonces = some tmp) : dir.get? tmp = none := by
  have hnone := List.find?_some h
  exact Option.isNone_iff_eq_none.mp hnone

/-- The pre-migration copy is there when it is done exactly if at most one copy sorts after it. -/
theorem preMigrationCopy_ends (dir : Directory δ) (db : δ) (hnow : 0 ≤ start.now)
    (hlt : start.now < 2 ^ 63) :
    Ends (fun d => d.db = db ∧ d.backups.getD .empty = dir) (preMigrationCopy start old)
      (fun _ d => d.db = db ∧ ∃ dir', d.backups = some dir' ∧
        (⟨copyName old start.now, .file (.copy db)⟩ ∈ dir' ↔
          (copies dir).countP (fun c => !copyLe c (start.now.toNat, copyName old start.now)) ≤ 1))
      fun _ _ => True := by
  have htime : preMigrationTime (copyName old start.now) = some start.now.toNat :=
    preMigrationTime_copyName hnow hlt
  refine ensureBackups_ends.bind fun _ => Ends.read fun d hd => ?_
  simp only [hd.2, Option.getD_some]
  refine Ends.attempt_bind (Q := fun d => d.db = db ∧ d.backups = some dir) (fun _ _ _ => trivial)
    (fun _ _ hd => hd) fun htmp => ?_
  obtain ⟨tmp, htmp⟩ := Option.isSome_iff_exists.mp (Option.isNone_eq_false_iff.mp htmp)
  simp only [htmp, Option.getD_some]
  refine (Ends.attempt (Q := fun d => d.db = db ∧
    d.backups = some (dir.put ⟨tmp, .file (.data [])⟩)) ?_ ?_).bind fun _ => ?_
  · exact fun _ d hd => ⟨hd.1, by rw [Data.inBackups, hd.2, Option.map_some]⟩
  · exact fun _ _ _ => trivial
  refine (Ends.onErrorWith ((writeCopy_ends (get?_of_freeName htmp)).mono_error
    fun _ _ _ => trivial)).bind fun _ => ?_
  refine Ends.of_state fun d hd => ?_
  obtain ⟨hdb, dir₁, hdir₁, hwritten⟩ := hd
  refine ((frame_prune db).and (prune_ends dir₁)).mono ?_ ?_ fun _ _ _ => trivial
  · exact fun s hs => by
      rw [hs]
      exact ⟨hdb, hdir₁⟩
  · rintro _ s ⟨hs, dir', hdir', hpruned, hwithout⟩
    refine ⟨hs, dir', hdir', ?_⟩
    rw [← hwritten.countP_eq htime]
    exact hpruned.mem_iff hwithout hwritten.copy rfl htime

/-! ## Before any migration -/

variable {S : Sqlite δ} {key : Bytes} {migrations : List (Migration δ)}

/-- The keycheck step leaves the database, or completes its missing keycheck. -/
theorem checkKeycheck_completes {d : Data δ} : Ends (fun s => s = d) (checkKeycheck S key start)
    (fun _ s => s.backups = d.backups ∧
      (s.db = d.db ∨ S.Lacks d.db ∧ S.insertKeycheck d.db key start.now = some s.db))
    fun _ _ => True := by
  refine (Ends.attempt (Q := fun s => s = d) (fun _ _ hs => hs) fun _ _ _ => trivial).bind fun _ =>
    Ends.read fun s hs => ?_
  subst hs
  dsimp only
  split
  · exact Ends.throw fun _ _ => trivial
  · refine Ends.attempt (fun _ s' hs' => ?_) fun _ _ _ => trivial
    rw [hs']
    exact ⟨rfl, .inl rfl⟩
  · rename_i hnone
    refine (Ends.attempt (Q := fun s' => S.storedMetaExists s.db = true ∧ s' = s) ?_ ?_).bind
      fun _ =>
      Ends.assume fun hmeta => ?_
    · exact fun hmeta s' hs' => ⟨by simpa using hmeta, hs'⟩
    · exact fun _ _ _ => trivial
    have hlacks : S.Lacks s.db := ⟨hmeta, by rwa [Sqlite.storedKeycheck, if_pos hmeta] at hnone⟩
    generalize hcompleted : S.insertKeycheck s.db key start.now = completed
    refine (Ends.attempt (Q := fun s' => completed.isNone = false ∧ s' = s) ?_ ?_).bind fun _ =>
      Ends.assume fun hsome => Ends.attempt ?_ ?_
    · exact fun hsome s' hs' => ⟨hsome, hs'⟩
    · exact fun _ _ _ => trivial
    · intro _ s' hs'
      obtain ⟨db, rfl⟩ := Option.isSome_iff_exists.mp (by rwa [Option.isNone_eq_false_iff] at hsome)
      rw [hs']
      exact ⟨rfl, .inr ⟨hlacks, rfl⟩⟩
    · exact fun _ _ _ => trivial

theorem beforeMigrations_copies {d : Data δ} (hnow : 0 ≤ start.now) (hlt : start.now < 2 ^ 63)
    (hpos : 1 ≤ S.userVersion d.db) (holder : S.userVersion d.db < newest migrations) :
    Ends (fun s => s = d) (beforeMigrations S key migrations start)
      (fun version s => version = S.userVersion d.db ∧
        (s.db = d.db ∨ S.Lacks d.db ∧ S.insertKeycheck d.db key start.now = some s.db) ∧
        ∃ dir, s.backups = some dir ∧ (⟨copyName version start.now, .file (.copy s.db)⟩ ∈ dir ↔
          ((copies (d.backups.getD .empty)).countP fun c =>
            !copyLe c (start.now.toNat, copyName version start.now)) ≤ 1))
      fun _ _ => True := by
  refine (Ends.attempt (Q := fun s => s = d) (fun _ _ hs => hs) fun _ _ _ => trivial).bind fun _ =>
    Ends.read fun s hs => ?_
  subst hs
  refine (Ends.attempt (Q := fun s' => s' = s) (fun _ _ hs => hs) fun _ _ _ => trivial).bind
    fun _ => ?_
  rw [if_neg (by omega)]
  refine checkKeycheck_completes.bind fun _ => ?_
  rw [if_pos holder]
  refine Ends.of_state fun s' hs' => ?_
  refine ((preMigrationCopy_ends (s.backups.getD .empty) s'.db hnow hlt).mono ?_
    (fun _ _ h => h) fun _ _ h => h).bind fun _ => Ends.pure fun s'' hs'' => ?_
  · intro s'' heq
    rw [heq, hs'.1]
    exact ⟨rfl, rfl⟩
  · obtain ⟨hdb, hcopy⟩ := hs''
    rw [hdb]
    exact ⟨rfl, hs'.2, hcopy⟩

/-- **No upgrade without its copy, exactly when at most one copy of the backups directory sorts
after the new one**, for every content of the directory. When `prepare` goes on to the migrations of
a database of version `v`, they are run on the database it found, or on that one with its missing
keycheck; and the directory holds `pre-migrate-v{v}-{now}.db` with that database iff at most one of
the copies before the start has a later time than the clock's, or the same time and a greater name.
Pruning removes, whatever the directory holds, only regular files of such names, and for each one it
removes it leaves two with the greatest times. -/
theorem no_upgrade_without_copy (S : Sqlite δ) (key : Bytes) (migrations : List (Migration δ))
    (start : Start) (d : Data δ) (hnow : 0 ≤ start.now) (hlt : start.now < 2 ^ 63)
    (hpos : 1 ≤ S.userVersion d.db) (holder : S.userVersion d.db < newest migrations) :
    (∀ version d', (beforeMigrations S key migrations start).exec d = (.ok version, d') →
      version = S.userVersion d.db ∧
      (d'.db = d.db ∨ S.Lacks d.db ∧ S.insertKeycheck d.db key start.now = some d'.db) ∧
      ((∃ dir, d'.backups = some dir ∧ dir.get? (copyName version start.now) =
          some ⟨copyName version start.now, .file (.copy d'.db)⟩) ↔
        ((copies (d.backups.getD .empty)).countP fun c =>
          !copyLe c (start.now.toNat, copyName version start.now)) ≤ 1)) ∧
    ∀ (start : Start) (db : δ) dir result d',
      (prunePreMigrationCopies start).exec ⟨db, some dir⟩ = (result, d') →
      ∃ dir', d'.backups = some dir' ∧ (∀ e ∈ dir', e ∈ dir) ∧ ∀ e ∈ dir, e ∉ dir' →
        e.node.isFile = true ∧
        (∃ version digits, isDigits version = true ∧ isDigits digits = true ∧
          e.name = asBytes ("pre-migrate-v".toList ++ version ++ '-' :: digits ++ ".db".toList)) ∧
        ∃ time, preMigrationTime e.name = some time ∧ ∃ a b, a ∈ copies dir' ∧ b ∈ copies dir' ∧
          a ≠ b ∧ time ≤ a.1 ∧ time ≤ b.1 := by
  constructor
  · intro version d' hrun
    obtain ⟨hversion, hdb, dir, hdir, hcopy⟩ :=
      ((beforeMigrations_copies hnow hlt hpos holder).run rfl).1 version d' hrun
    refine ⟨hversion, hdb, ?_⟩
    rw [← hcopy]
    constructor
    · rintro ⟨dir', hdir', hget⟩
      cases hdir.symm.trans hdir'
      exact Table.mem_of_get? hget
    · exact fun hmem => ⟨dir, hdir, Table.get?_of_mem hmem⟩
  · intro start db dir result d' hrun
    have hpruned : ∃ dir', d'.backups = some dir' ∧ Pruned dir dir' := by
      obtain ⟨hok, herr⟩ := (prune_ends dir).run (s := ⟨db, some dir⟩) rfl
      cases result with
      | ok a =>
        obtain ⟨dir', hdir', hp, -⟩ := hok a d' hrun
        exact ⟨dir', hdir', hp⟩
      | error e => exact herr e d' hrun
    obtain ⟨dir', hdir', H⟩ := hpruned
    refine ⟨dir', hdir', H.sub, fun e he hgone => ?_⟩
    obtain ⟨hfile, time, htime, a, b, ha, hb, hne, hla, hlb⟩ := H.removed he hgone
    have hlater : ∀ {c : Nat × Bytes}, copyLe c (time, e.name) = false → time ≤ c.1 := by
      intro c hc
      have hle := copyLe_eq_true.mp ((ranks_copies dir).le_of_not hc)
      dsimp only at hle
      omega
    exact ⟨hfile, of_preMigrationTime htime, time, htime, a, b, ha, hb, hne, hlater hla, hlater hlb⟩

/-! ## Copies of an earlier and of a later clock -/

namespace Tiny

/-- A copy of version 1 written at a time. -/
def copyAt (time : Time) : DirEntry Rows := ⟨copyName 1 time, .file (.data [])⟩

/-- A database of version 1 with copies of the times 2000 and 3000. -/
def copied : Data Rows :=
  ⟨⟨1, some (some ([7], 5)), []⟩, some ((Table.empty.put (copyAt 2000)).put (copyAt 3000))⟩

/-- A start at which nothing fails. -/
def startAt (now : Time) : Start := ⟨now, [.replicate 8 0], fun _ => none⟩

/-- The backups directory when the migrations begin. -/
def backupsAt (now : Time) : Option (Directory Rows) :=
  ((beforeMigrations sqlite [7] [create, add] (startAt now)).exec copied).2.backups

theorem goes_on (now : Time)
    (h : ((beforeMigrations sqlite [7] [create, add] (startAt now)).exec copied).1 = .ok 1) :
    (beforeMigrations sqlite [7] [create, add] (startAt now)).exec copied =
      (.ok 1, ((beforeMigrations sqlite [7] [create, add] (startAt now)).exec copied).2) :=
  Prod.ext h rfl

end Tiny

open Tiny in
theorem no_upgrade_without_copy_later :
    ∃ dir, backupsAt 4000 = some dir ∧
      dir.get? (copyName 1 4000) = some ⟨copyName 1 4000, .file (.copy copied.db)⟩ := by
  obtain ⟨-, hdb, hcopy⟩ := (no_upgrade_without_copy sqlite [7] [create, add] (startAt 4000) copied
    (by decide) (by decide) le_rfl (by decide)).1 1 _ (goes_on 4000 (by decide))
  obtain ⟨dir, hdir, hget⟩ := hcopy.mpr (by decide)
  rcases hdb with hdb | ⟨hlacks, -⟩
  · exact ⟨dir, hdir, hdb ▸ hget⟩
  · cases hlacks.2

open Tiny in
/-- With two copies of a later time the new one is removed before the migrations run. -/
theorem new_copy_pruned :
    ((beforeMigrations sqlite [7] [create, add] (startAt 1000)).exec copied).1 = .ok 1 ∧
    (backupsAt 1000).map (fun dir => dir.rows) = some [copyAt 2000, copyAt 3000] ∧
    ((prepare sqlite [7] [create, add] (startAt 1000)).exec copied).2.db.version = 2 := by
  decide

end Kohaku.Migrate
