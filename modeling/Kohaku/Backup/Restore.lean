import Kohaku.Db
import Kohaku.Steps.Fallible

/-!
# Restore

`restore` as its sequence of file steps, each of which may fail without effect. The candidate is
copied beside the database, checked, given the restore entry, and only then renamed over the
database; before that the old WAL and SHM files are removed. There is no common commit point: an
error after the first removal leaves the removed files gone, and one after the rename leaves the new
database in place.
-/

namespace Kohaku.Backup

open Fallible

/-- What SQLite makes of a file. -/
structure Sqlite where
  /-- `PRAGMA integrity_check` and `user_version`; `none` when it cannot be opened or read. -/
  check : Bytes → Option (Str × Int)
  /-- The rows of `audit_log`, if the file has one. -/
  auditLog : Bytes → Option (List AuditRow)
  /-- The file with one more audit entry; `none` when it cannot take it. -/
  record : Bytes → AuditRow → Option Bytes
  auditLog_record : ∀ {file entry file'}, record file entry = some file' →
    ∃ log, auditLog file = some log ∧ auditLog file' = some (log ++ [entry])

/-- The files of the live database. -/
@[ext] structure Live where
  database : Option Bytes
  wal : Option Bytes
  shm : Option Bytes
  deriving DecidableEq

/-- The data directory during a restore. -/
structure Files extends Live where
  tmp : Option Bytes
  deriving DecidableEq

/-- The steps of `restore` that can fail. -/
inductive Step
  | lock
  | createTmp
  | copy
  | sync
  | check
  | record
  | syncChecked
  | removeWal
  | removeShm
  | rename
  | syncDir
  /-- The removal of the temporary file after an error, whose own failure is ignored. -/
  | cleanup
  deriving DecidableEq

/-- `RestoreError`. -/
inductive RestoreError
  | lock
  | io
  | notABackup
  | record
  deriving DecidableEq, Repr

/-- A part of `restore` over the files of the data directory. -/
abbrev Restore := Prog Files RestoreError

/-- The entry `instance.restore`. -/
def restoreEntry (now : Time) : AuditRow := ⟨.cli, .instanceRestore, .theInstance, now⟩

/-- The file passes the checks of `check_and_record`. -/
def Sqlite.accepts (S : Sqlite) (file : Bytes) : Bool :=
  (S.check file).any fun (integrity, version) => integrity = "ok".toList && version ≥ 1

variable (S : Sqlite) (fails : Step → Bool)

/-- Checks the candidate and records `instance.restore` in it. -/
def checkAndRecord (now : Time) : Restore Unit := do
  let file := (← get).tmp.getD []
  attempt (fails .check || !S.accepts file) .notABackup id
  let recorded := S.record file (restoreEntry now)
  attempt (fails .record || recorded.isNone) .record fun f => { f with tmp := recorded }

/-- The steps after the temporary file was created. -/
def restoreSteps (source : Bytes) (now : Time) : Restore Unit := do
  attempt (fails .copy) .io fun f => { f with tmp := some source }
  attempt (fails .sync) .io id
  checkAndRecord S fails now
  attempt (fails .syncChecked) .io id
  attempt (fails .removeWal) .io fun f => { f with wal := none }
  attempt (fails .removeShm) .io fun f => { f with shm := none }
  attempt (fails .rename) .io fun f => { f with database := f.tmp, tmp := none }
  attempt (fails .syncDir) .io id

/-- `restore`, with the steps that fail. -/
def restore (source : Bytes) (now : Time) : Restore Unit := do
  attempt (fails .lock) .lock id
  attempt (fails .createTmp) .io fun f => { f with tmp := some [] }
  onError (restoreSteps S fails source now) fun f =>
    if fails .cleanup then f else { f with tmp := none }

variable {S fails} {live : Live} {source image : Bytes} {now : Time}

/-- The checked candidate with its restore entry. -/
def Restored (S : Sqlite) (source : Bytes) (now : Time) (image : Bytes) : Prop :=
  S.accepts source = true ∧ S.record source (restoreEntry now) = some image

/-- The steps up to the removal of the WAL file, the first that changes a live file. -/
def stepsToWal : List Step :=
  [.lock, .createTmp, .copy, .sync, .check, .record, .syncChecked, .removeWal]

/-- The restore removes the WAL file: the source is accepted and recorded as `image`, and no step
up to that one fails. -/
structure RemovesWal (S : Sqlite) (fails : Step → Bool) (source : Bytes) (now : Time)
    (image : Bytes) : Prop where
  restored : Restored S source now image
  steps : ∀ step ∈ stepsToWal, fails step = false

/-- After the WAL file is gone, the first step that fails finds the live files as they were: there
was no WAL file when the removal of the SHM file fails, neither of the two when the rename fails,
and the database was the candidate already when the flush of the directory fails. -/
structure LeavesLive (fails : Step → Bool) (live : Live) (image : Bytes) : Prop where
  removeShm : fails .removeShm = true → live.wal = none
  rename : fails .removeShm = false → fails .rename = true → live.wal = none ∧ live.shm = none
  syncDir : fails .removeShm = false → fails .rename = false → fails .syncDir = true →
    live = ⟨some image, none, none⟩

/-- No step fails after a live file was changed. -/
def Spares (S : Sqlite) (fails : Step → Bool) (source : Bytes) (now : Time) (live : Live) : Prop :=
  ∀ image, RemovesWal S fails source now image → LeavesLive fails live image

/-- Before the WAL file is removed nothing has changed. -/
theorem Spares.of_early {step : Step} (hstep : step ∈ stepsToWal) (hfail : fails step = true) :
    Spares S fails source now live := by
  intro image hremoves
  have hok := hremoves.steps step hstep
  rw [hfail] at hok
  cases hok

theorem Spares.of_not_restored (h : ∀ image, ¬Restored S source now image) :
    Spares S fails source now live :=
  fun image hremoves => absurd hremoves.restored (h image)

/-- The image is the one recorded. -/
theorem RemovesWal.spares_iff (H : RemovesWal S fails source now image) :
    Spares S fails source now live ↔ LeavesLive fails live image := by
  constructor
  · exact fun hspares => hspares image H
  · intro hleaves image' H'
    have heq : image' = image :=
      Option.some.inj (H'.restored.2.symm.trans H.restored.2)
    rwa [heq]

/-- The candidate is recorded, or an error leaves the live files and spares them. -/
theorem checkAndRecord_ends :
    Ends (fun f => f.toLive = live ∧ f.tmp = some source) (checkAndRecord S fails now)
      (fun _ f => (fails .check = false ∧ fails .record = false) ∧ f.toLive = live ∧
        ∃ image, Restored S source now image ∧ f.tmp = some image)
      (fun _ f => f.toLive = live ∧ Spares S fails source now live) := by
  refine Ends.read fun f hf => ?_
  simp only [hf.2, Option.getD_some]
  refine Ends.attempt_bind (Q := fun f => f.toLive = live) ?_ ?_ fun hcheck => Ends.attempt ?_ ?_
  · intro hfail f hf
    refine ⟨hf.1, ?_⟩
    rcases Bool.or_eq_true_iff.mp hfail with hcheck | hrefused
    · exact .of_early (by decide) hcheck
    · refine .of_not_restored fun image himage => ?_
      rw [himage.1] at hrefused
      cases hrefused
  · exact fun _ f hf => hf.1
  · intro hrecord f hlive
    obtain ⟨hcheck, haccepts⟩ := Bool.or_eq_false_iff.mp hcheck
    obtain ⟨hrecord, hsome⟩ := Bool.or_eq_false_iff.mp hrecord
    rw [Option.isNone_eq_false_iff] at hsome
    obtain ⟨image, himage⟩ := Option.isSome_iff_exists.mp hsome
    exact ⟨⟨hcheck, hrecord⟩, hlive, image, ⟨by simpa using haccepts, himage⟩, himage⟩
  · intro hfail f hlive
    refine ⟨hlive, ?_⟩
    rcases Bool.or_eq_true_iff.mp hfail with hrecord | hnone
    · exact .of_early (by decide) hrecord
    · refine .of_not_restored fun image himage => ?_
      rw [himage.2] at hnone
      cases hnone

/-- The steps that change the live files, from the removal of the SHM file on. -/
theorem replace_ends (H : RemovesWal S fails source now image) :
    Ends (fun f : Files => f.toLive = { live with wal := none } ∧ f.tmp = some image)
      (do
        attempt (fails .removeShm) .io fun f => { f with shm := none }
        attempt (fails .rename) .io fun f => { f with database := f.tmp, tmp := none }
        attempt (fails .syncDir) .io id : Restore Unit)
      (fun _ f => f.toLive = ⟨some image, none, none⟩ ∧ Spares S fails source now live)
      (fun _ f => f.toLive = live ↔ Spares S fails source now live) := by
  simp only [H.spares_iff]
  refine Ends.attempt_bind (Q := fun f => f.toLive = { live with wal := none, shm := none } ∧
    f.tmp = some image) ?_ ?_ fun hshm => ?_
  · rintro hfail f ⟨hlive, -⟩
    rw [hlive, Live.ext_iff]
    constructor
    · intro heq
      refine ⟨fun _ => heq.2.1.symm, fun hshm => ?_, fun hshm => ?_⟩
      · cases hfail.symm.trans hshm
      · cases hfail.symm.trans hshm
    · exact fun hleaves => ⟨rfl, (hleaves.removeShm hfail).symm, rfl⟩
  · rintro - ⟨⟨_, _, _⟩, _⟩ ⟨hlive, htmp⟩
    cases hlive
    exact ⟨rfl, htmp⟩
  refine Ends.attempt_bind (Q := fun f => f.toLive = ⟨some image, none, none⟩) ?_ ?_ fun hrename =>
    Ends.attempt ?_ ?_
  · rintro hfail f ⟨hlive, -⟩
    rw [hlive, Live.ext_iff]
    constructor
    · intro heq
      refine ⟨fun hfail' => ?_, fun _ _ => ⟨heq.2.1.symm, heq.2.2.symm⟩, fun _ hrename => ?_⟩
      · cases hshm.symm.trans hfail'
      · cases hfail.symm.trans hrename
    · intro hleaves
      obtain ⟨hwal, hnone⟩ := hleaves.rename hshm hfail
      exact ⟨rfl, hwal.symm, hnone.symm⟩
  · rintro - ⟨⟨_, _, _⟩, _⟩ ⟨hlive, htmp⟩
    cases hlive
    cases htmp
    rfl
  · intro hsync f hlive
    refine ⟨hlive, fun hfail => ?_, fun _ hfail => ?_, fun _ _ hfail => ?_⟩
    · cases hshm.symm.trans hfail
    · cases hrename.symm.trans hfail
    · cases hsync.symm.trans hfail
  · intro hsync f hlive
    rw [hlive]
    constructor
    · intro heq
      refine ⟨fun hfail => ?_, fun _ hfail => ?_, fun _ _ _ => heq.symm⟩
      · cases hshm.symm.trans hfail
      · cases hrename.symm.trans hfail
    · exact fun hleaves => (hleaves.syncDir hshm hrename hsync).symm

/-- The files at the end of the steps; after an error they are those before exactly if no step
failed after one was changed. -/
theorem restoreSteps_ends (hlock : fails .lock = false) (hcreate : fails .createTmp = false) :
    Ends (fun f => f.toLive = live) (restoreSteps S fails source now)
      (fun _ f => (∃ image, Restored S source now image ∧ f.toLive = ⟨some image, none, none⟩) ∧
        Spares S fails source now live)
      (fun _ f => f.toLive = live ↔ Spares S fails source now live) := by
  have hearly : ∀ {step : Step}, step ∈ stepsToWal → fails step = true → ∀ f : Files,
      f.toLive = live → (f.toLive = live ↔ Spares S fails source now live) :=
    fun hstep hfail f hlive => iff_of_true hlive (.of_early hstep hfail)
  refine Ends.attempt_bind (Q := fun f => f.toLive = live ∧ f.tmp = some source) ?_ ?_
    fun hcopy => ?_
  · exact hearly (by decide)
  · exact fun _ f hlive => ⟨hlive, rfl⟩
  refine Ends.attempt_bind (Q := fun f => f.toLive = live ∧ f.tmp = some source) ?_ ?_
    fun hsync => ?_
  · exact fun hfail f hf => hearly (by decide) hfail f hf.1
  · exact fun _ f hf => hf
  refine (checkAndRecord_ends.mono_error fun _ f hf => iff_of_true hf.1 hf.2).bind fun _ => ?_
  refine Ends.assume fun hrecorded => ?_
  refine Ends.of_state fun f₀ hf₀ => ?_
  obtain ⟨hlive₀, image, himage, htmp₀⟩ := hf₀
  refine Ends.attempt_bind (Q := fun f => f.toLive = live ∧ f.tmp = some image) ?_ ?_
    fun hchecked => ?_
  · rintro hfail f rfl
    exact hearly (by decide) hfail f hlive₀
  · rintro - f rfl
    exact ⟨hlive₀, htmp₀⟩
  refine Ends.attempt_bind (Q := fun f => f.toLive = { live with wal := none } ∧ f.tmp = some image)
    ?_ ?_ fun hwal => ?_
  · exact fun hfail f hf => hearly (by decide) hfail f hf.1
  · rintro - f ⟨rfl, htmp⟩
    exact ⟨rfl, htmp⟩
  -- from here on a live file may have changed
  have hremoves : RemovesWal S fails source now image := by
    refine ⟨himage, ?_⟩
    simp only [stepsToWal, List.forall_mem_cons]
    exact ⟨hlock, hcreate, hcopy, hsync, hrecorded.1, hrecorded.2, hchecked, hwal,
      List.forall_mem_nil _⟩
  exact (replace_ends hremoves).mono (fun _ hf => hf) (fun _ f hf => ⟨⟨image, himage, hf.1⟩, hf.2⟩)
    fun _ _ hf => hf

/-- `restore` leaves the restored database; with an error it leaves the old files exactly if no step
failed after one was changed. -/
theorem restore_ends :
    Ends (fun f => f.toLive = live) (restore S fails source now)
      (fun _ f => (∃ image, Restored S source now image ∧ f.toLive = ⟨some image, none, none⟩) ∧
        Spares S fails source now live)
      (fun _ f => f.toLive = live ↔ Spares S fails source now live) := by
  refine Ends.attempt_bind (Q := fun f => f.toLive = live) ?_ ?_ fun hlock => ?_
  · exact fun hfail f hlive => iff_of_true hlive (.of_early (by decide) hfail)
  · exact fun _ f hlive => hlive
  refine Ends.attempt_bind (Q := fun f => f.toLive = live) ?_ ?_ fun hcreate => ?_
  · exact fun hfail f hlive => iff_of_true hlive (.of_early (by decide) hfail)
  · exact fun _ f hlive => hlive
  refine Ends.onError ((restoreSteps_ends hlock hcreate).mono_error fun _ f hf => ?_)
  split
  · exact hf
  · exact hf

/-- **A failed restore changes nothing, exactly when no step fails after a live file was changed**,
for every source, every state of the data directory and every choice of failing steps: then
an error leaves the database, WAL and SHM files as they were, and a success leaves the
checked candidate with its restore entry and no WAL or SHM of the old database. -/
theorem failed_restore_changes_nothing (S : Sqlite) (fails : Step → Bool) (source : Bytes)
    (now : Time) (files : Files) :
    ((∀ error files', (restore S fails source now).exec files = (.error error, files') →
      files'.toLive = files.toLive) ∧
    ∀ files', (restore S fails source now).exec files = (.ok (), files') →
      ∃ image log, S.accepts source = true ∧ S.record source (restoreEntry now) = some image ∧
        S.auditLog source = some log ∧ S.auditLog image = some (log ++ [restoreEntry now]) ∧
        files'.toLive = ⟨some image, none, none⟩) ↔
    Spares S fails source now files.toLive := by
  have hends : Ends (fun f => f.toLive = files.toLive) (restore S fails source now) _ _ :=
    restore_ends
  obtain ⟨hok, herr⟩ := hends.run (s := files) rfl
  rcases hrun : (restore S fails source now).exec files with ⟨error | ⟨⟩, files'⟩
  · have hiff := herr error files' hrun
    refine ⟨fun h => hiff.mp (h.1 error files' rfl), fun hspares => ⟨?_, fun _ h => by cases h⟩⟩
    rintro _ _ ⟨⟩
    exact hiff.mpr hspares
  · obtain ⟨⟨image, ⟨haccepts, himage⟩, hlive⟩, hspares⟩ := hok () files' hrun
    refine iff_of_true ⟨(fun _ _ h => by cases h), ?_⟩ hspares
    rintro _ ⟨⟩
    obtain ⟨log, hlog, hlog'⟩ := S.auditLog_record himage
    exact ⟨image, log, haccepts, himage, hlog, hlog', hlive⟩

/-! ## A database with a WAL and an SHM file -/

namespace Unclean

/-- A file of one header byte and the times of its restore entries. -/
def sqlite : Sqlite where
  check file := if file.isEmpty then none else some ("ok".toList, 1)
  auditLog file := if file.isEmpty then none else some (file.tail.map fun b => restoreEntry b.toNat)
  record file entry :=
    let time := UInt8.ofNat entry.time.toNat
    if !file.isEmpty && restoreEntry time.toNat = entry then some (file ++ [time]) else none
  auditLog_record := by
    intro file entry file' h
    cases file with
    | nil => simp at h
    | cons b file =>
      simp only [List.isEmpty_cons, Bool.not_false, Bool.true_and, decide_eq_true_eq] at h
      obtain ⟨htime, hfile⟩ := Option.ite_none_right_eq_some.mp h
      cases hfile
      simpa using htime

/-- A data directory with a database, a WAL and an SHM file. -/
def files : Files := ⟨⟨some [1, 3], some [7], some [8]⟩, none⟩

end Unclean

open Unclean in
theorem failed_restore_changes_nothing_check :
    ((restore sqlite (fun step => step = .removeWal) [1, 4] 5).exec files).2.toLive = files.toLive ∧
    ∃ image log, sqlite.record [1, 4] (restoreEntry 5) = some image ∧
      sqlite.auditLog image = some (log ++ [restoreEntry 5]) ∧
      ((restore sqlite (fun step => step = .cleanup) [1, 4] 5).exec files).2.toLive =
        ⟨some image, none, none⟩ := by
  constructor
  · exact ((failed_restore_changes_nothing sqlite (fun step => step = .removeWal)
      [1, 4] 5 files).mpr
      (.of_early (show Step.removeWal ∈ stepsToWal by decide) (by decide))).1 .io _ rfl
  · have hspares : Spares sqlite (fun step => step = .cleanup) [1, 4] 5 files.toLive :=
      fun image _ => ⟨by decide, by decide, fun _ _ hfail => absurd hfail (by decide)⟩
    obtain ⟨image, log, -, himage, -, hlog, hlive⟩ :=
      ((failed_restore_changes_nothing sqlite _ [1, 4] 5 files).mpr hspares).2 _ rfl
    exact ⟨image, log, himage, hlog, hlive⟩

open Unclean in
/-- A failing rename loses the WAL and the SHM file, and a failing flush of the directory reports an
error although the database was replaced. -/
theorem late_failure_changes_files :
    (restore sqlite (fun step => step = .rename) [1, 4] 5).exec files =
      (.error .io, ⟨⟨some [1, 3], none, none⟩, none⟩) ∧
    (restore sqlite (fun step => step = .syncDir) [1, 4] 5).exec files =
      (.error .io, ⟨⟨some [1, 4, 5], none, none⟩, none⟩) :=
  ⟨rfl, rfl⟩

end Kohaku.Backup
