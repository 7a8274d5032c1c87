import Kohaku.Basic
import Kohaku.Steps.Fallible

/-!
# Backup to a file

`backup_to_file` as its sequence of steps, each of which may fail without effect, while another
process may create any entry at the target before any of them. The snapshot is written and flushed
under a temporary name and published by a hard link, which fails on any entry. The removal of the
temporary name and the flush of the directory come after the link: if one of them fails the error is
reported with the file published.
-/

namespace Kohaku.Backup.ToFile

open Fallible

/-- A file this call writes: its bytes and whether they were flushed. -/
structure Snapshot where
  data : Bytes
  flushed : Bool
  deriving DecidableEq

/-- An entry at the target: this call's file under a second name, or one of another process. -/
inductive Entry (ε : Type)
  | linked (file : Snapshot)
  | foreign (entry : ε)
  deriving DecidableEq

/-- The target and the temporary file of this call. -/
@[ext] structure Dir (ε : Type) where
  target : Option (Entry ε)
  tmp : Option Snapshot
  deriving DecidableEq

/-- The steps of `backup_to_file`. -/
inductive Step
  | targetCheck
  | openDatabase
  | keycheck
  | createTmp
  | vacuumInto
  | flush
  | hardLink
  | removeTmp
  | syncDir
  /-- The removal of the temporary file after an error, whose own failure is ignored. -/
  | cleanup
  deriving DecidableEq

/-- `BackupError`. -/
inductive BackupError
  | noDatabase
  | keycheck
  | targetExists
  | write
  deriving DecidableEq, Repr

/-- The steps that fail, and the entry another process creates at the target before a step. -/
structure Env (ε : Type) where
  fails : Step → Bool
  creates : Step → Option ε

variable {ε : Type}

/-- A part of `backup_to_file`, with the states of the directory it leaves behind. -/
abbrev Publish (ε : Type) := Prog (Traced (Dir ε)) BackupError

/-- Another process creates its entry, if there is none. -/
def Env.arrive (env : Env ε) (s : Step) (d : Dir ε) : Dir ε :=
  { d with target := d.target.or ((env.creates s).map .foreign) }

/-- The temporary name is removed. -/
def Dir.removeTmp (d : Dir ε) : Dir ε := { d with tmp := none }

/-- The target becomes a link to the temporary file. -/
def Dir.link (d : Dir ε) : Dir ε := { d with target := d.tmp.map .linked }

variable (env : Env ε)

/-- A step before which another process may create an entry at the target. -/
def step (s : Step) (error : BackupError) (effect : Dir ε → Dir ε) : Publish ε Unit := do
  modify fun t => t.step (env.arrive s)
  attempt (env.fails s) error fun t => t.step effect

/-- `fs::symlink_metadata(target).is_ok()`. -/
def targetCheck : Publish ε Bool := modifyGet fun t =>
  let t := t.step (env.arrive .targetCheck)
  (!env.fails .targetCheck && t.now.target.isSome, t)

/-- `snapshot`, of a database whose copy is `image`. -/
def snapshot (image : Bytes) : Publish ε Unit := do
  step env .createTmp .write fun d => { d with tmp := some ⟨[], false⟩ }
  onError (do
    step env .vacuumInto .write fun d => { d with tmp := some ⟨image, false⟩ }
    step env .flush .write fun d =>
      { d with tmp := d.tmp.map fun file => { file with flushed := true } })
    fun t =>
      let t := t.step (env.arrive .cleanup)
      if env.fails .cleanup then t else t.step Dir.removeTmp

/-- The result of `fs::hard_link`. -/
inductive Published
  | linked
  | alreadyExists
  | failed
  deriving DecidableEq

/-- `fs::hard_link`, which refuses a target that exists. -/
def hardLink : Publish ε Published := modifyGet fun t =>
  let t := t.step (env.arrive .hardLink)
  if env.fails .hardLink then (.failed, t)
  else if t.now.target.isSome then (.alreadyExists, t)
  else (.linked, t.step Dir.link)

/-- `remove_if_present` of the temporary file: whether it succeeds. -/
def removeIfPresent (s : Step) : Publish ε Bool := modifyGet fun t =>
  let t := t.step (env.arrive s)
  if env.fails s then (false, t) else (true, t.step Dir.removeTmp)

/-- `backup_to_file`. -/
def backupToFile (image : Bytes) : Publish ε Unit := do
  let found ← targetCheck env
  attempt found .targetExists id
  step env .openDatabase .noDatabase id
  step env .keycheck .keycheck id
  snapshot env image
  let published ← hardLink env
  let removed ← removeIfPresent env (if published = .linked then .removeTmp else .cleanup)
  match published with
  | .alreadyExists => throw .targetExists
  | .failed => throw .write
  | .linked =>
    attempt (!removed) .write id
    step env .syncDir .write id

variable {env} {image : Bytes} {entry : Option ε} {P P' Q : Dir ε → Prop} {d : Dir ε} {s : Step}

/-! ## When the copy is published -/

/-- The steps up to the link. -/
def stepsToLink : List Step :=
  [.targetCheck, .openDatabase, .keycheck, .createTmp, .vacuumInto, .flush, .hardLink]

/-- There is no entry at the target at the start, and none is created before one of the steps. -/
def Env.Free (env : Env ε) (entry : Option ε) (steps : List Step) : Prop :=
  entry = none ∧ ∀ s ∈ steps, env.creates s = none

/-- The link is made: the target is free up to it, and no step up to it fails. A target check that
fails finds nothing, which is no failure of the call. -/
structure Env.Links (env : Env ε) (entry : Option ε) : Prop where
  free : env.Free entry stepsToLink
  steps : ∀ s ∈ stepsToLink, s ≠ .targetCheck → env.fails s = false

/-- If the link is made, neither the removal of the temporary name nor the flush of the directory
after it fails. -/
def Env.Finishes (env : Env ε) (entry : Option ε) : Prop :=
  env.Links entry → env.fails .removeTmp = false ∧ env.fails .syncDir = false

theorem Env.Finishes.of_fails (hs : s ∈ stepsToLink) (hne : s ≠ .targetCheck)
    (hfail : env.fails s = true) : env.Finishes entry := by
  intro hlinks
  have hok := hlinks.steps s hs hne
  rw [hfail] at hok
  cases hok

theorem Env.Finishes.of_not_free {steps : List Step} (hsub : steps ⊆ stepsToLink)
    (h : ¬env.Free entry steps) : env.Finishes entry :=
  fun hlinks => absurd ⟨hlinks.free.1, fun s hs => hlinks.free.2 s (hsub hs)⟩ h

/-! ## One step -/

/-- An entry another process made stays as it is. -/
def Keeps (d d' : Dir ε) : Prop := ∀ x, d.target = some (.foreign x) → d'.target = some (.foreign x)

instance : IsTrans (Dir ε) Keeps := ⟨fun _ _ _ h h' x hx => h' x (h x hx)⟩

theorem keeps_arrive (env : Env ε) (s : Step) (d : Dir ε) : Keeps d (env.arrive s d) := by
  intro x hx
  rw [Env.arrive, hx, Option.some_or]

theorem keeps_of_eq {d' : Dir ε} (h : d'.target = d.target) : Keeps d d' := fun _ hx => h.trans hx

/-- After another process may have created an entry. -/
theorem At.arrive {t : Traced (Dir ε)} (harrive : ∀ d, P d → P' (env.arrive s d))
    (h : t.At Keeps P) : (t.step (env.arrive s)).At Keeps P' :=
  h.step (keeps_arrive env s _) (harrive _ h.now)

theorem step_ends {error : BackupError} {effect : Dir ε → Dir ε}
    {E : BackupError → Traced (Dir ε) → Prop} (harrive : ∀ d, P d → P' (env.arrive s d))
    (hok : ∀ d, P' d → Keeps d (effect d) ∧ Q (effect d))
    (herr : env.fails s = true → ∀ t : Traced (Dir ε), t.At Keeps P' → E error t) :
    Ends (Traced.At Keeps P) (step env s error effect)
      (fun _ t => env.fails s = false ∧ t.At Keeps Q) E := by
  refine (Ends.modifyGet (Q := fun _ => Traced.At Keeps P') ?_).bind fun _ => Ends.attempt ?_ herr
  · exact fun t ht => At.arrive harrive ht
  · exact fun hfails t ht => ⟨hfails, ht.step (hok _ ht.now).1 (hok _ ht.now).2⟩

/-- `remove_if_present`, when it fails and when it does not. -/
theorem removeIfPresent_ends (harrive : ∀ d, P d → P (env.arrive s d))
    (hQ : ∀ d, P d → Q d.removeTmp) {R : BackupError → _} :
    Ends (Traced.At Keeps P) (removeIfPresent env s)
      (fun removed t => if removed then env.fails s = false ∧ t.At Keeps Q
        else env.fails s = true ∧ t.At Keeps P) R := by
  apply Ends.modifyGet
  intro t ht
  have harrived := At.arrive harrive ht
  cases hfail : env.fails s with
  | true => exact ⟨rfl, harrived⟩
  | false => exact ⟨rfl, harrived.step (keeps_of_eq rfl) (hQ _ harrived.now)⟩

/-! ## The phases of a call -/

/-- Nothing of this call is at the target. -/
def Unlinked (d : Dir ε) : Prop := ∀ file, d.target ≠ some (.linked file)

/-- Nothing of this call is left. -/
def Absent (d : Dir ε) : Prop := Unlinked d ∧ d.tmp = none

/-- Before the link, with the steps so far. -/
structure Before (env : Env ε) (entry : Option ε) (steps : List Step) (tmp : Option Snapshot)
    (d : Dir ε) : Prop where
  tmp : d.tmp = tmp
  unlinked : Unlinked d
  free : d.target = none ↔ env.Free entry steps

/-- After the link: the complete flushed copy is at the target. -/
structure After (image : Bytes) (tmp : Option Snapshot) (d : Dir ε) : Prop where
  tmp : d.tmp = tmp
  target : d.target = some (.linked ⟨image, true⟩)

theorem unlinked_arrive (env : Env ε) (s : Step) (d : Dir ε) (h : Unlinked d) :
    Unlinked (env.arrive s d) := by
  intro file hfile
  rcases Option.or_eq_some_iff.mp hfile with htarget | ⟨-, hnew⟩
  · exact h file htarget
  · obtain ⟨x, -, hx⟩ := Option.map_eq_some_iff.mp hnew
    cases hx

theorem Before.arrive {steps : List Step} {tmp : Option Snapshot} (d : Dir ε)
    (h : Before env entry steps tmp d) : Before env entry (steps ++ [s]) tmp (env.arrive s d) := by
  refine ⟨h.tmp, unlinked_arrive env s d h.unlinked, ?_⟩
  rw [Env.arrive, Option.or_eq_none_iff, Option.map_eq_none_iff, h.free, Env.Free,
    Env.Free, and_assoc]
  simp only [List.forall_mem_append, List.forall_mem_singleton]

theorem After.arrive {tmp : Option Snapshot} (d : Dir ε) (h : After image tmp d) :
    After image tmp (env.arrive s d) :=
  ⟨h.tmp, by rw [Env.arrive, h.target, Option.some_or]⟩

theorem After.not_absent {tmp : Option Snapshot} (h : After image tmp d) : ¬Absent d :=
  fun habsent => habsent.1 _ h.target

/-- A step that only writes the temporary file. -/
theorem write_ends {steps : List Step} {tmp : Option Snapshot} (tmp' : Option Snapshot)
    {error : BackupError} {effect : Dir ε → Dir ε} {E : BackupError → Traced (Dir ε) → Prop}
    (heffect : ∀ d, d.tmp = tmp → effect d = { d with tmp := tmp' })
    (herr : env.fails s = true → ∀ t : Traced (Dir ε),
      t.At Keeps (Before env entry (steps ++ [s]) tmp) → E error t) :
    Ends (Traced.At Keeps (Before env entry steps tmp)) (step env s error effect)
      (fun _ t => env.fails s = false ∧ t.At Keeps (Before env entry (steps ++ [s]) tmp')) E := by
  refine step_ends Before.arrive (fun d hd => ?_) herr
  rw [heffect d hd.tmp]
  exact ⟨keeps_of_eq rfl, rfl, hd.unlinked, hd.free⟩

/-- A step that changes nothing and fails before the link. -/
theorem look_ends {steps : List Step} {error : BackupError} (hs : s ∈ stepsToLink)
    (hne : s ≠ .targetCheck) :
    Ends (Traced.At Keeps (Before env entry steps none)) (step env s error id)
      (fun _ t => env.fails s = false ∧ t.At Keeps (Before env entry (steps ++ [s]) none))
      fun _ t => env.Finishes entry ∧ t.At Keeps Absent :=
  step_ends Before.arrive (fun _ hd => ⟨keeps_of_eq rfl, hd⟩) fun hfail _ ht =>
    ⟨.of_fails hs hne hfail, ht.mono fun _ hd => ⟨hd.unlinked, hd.tmp⟩⟩

/-- `snapshot` leaves the flushed copy, or with an error no temporary file. -/
theorem snapshot_ends (hclean : env.fails .cleanup = false) {steps : List Step} :
    Ends (Traced.At Keeps (Before env entry steps none)) (snapshot env image)
      (fun _ t => (env.fails .createTmp = false ∧ env.fails .vacuumInto = false ∧
          env.fails .flush = false) ∧
        t.At Keeps (Before env entry (steps ++ [.createTmp] ++ [.vacuumInto] ++ [.flush])
          (some ⟨image, true⟩)))
      fun _ t => env.Finishes entry ∧ t.At Keeps Absent := by
  -- an error after the file was created removes it
  have hremove : ∀ t : Traced (Dir ε), t.At Keeps Unlinked →
      (if env.fails .cleanup then t.step (env.arrive .cleanup)
        else (t.step (env.arrive .cleanup)).step Dir.removeTmp).At Keeps Absent := by
    intro t ht
    have harrived := At.arrive (unlinked_arrive env .cleanup) ht
    rw [hclean]
    exact harrived.step (keeps_of_eq rfl) ⟨harrived.now, rfl⟩
  refine (write_ends _ (fun d _ => rfl) ?_).bind fun _ => Ends.assume fun hcreate => ?_
  · exact fun hfail t ht => ⟨.of_fails (by decide) (by decide) hfail,
      ht.mono fun d hd => ⟨hd.unlinked, hd.tmp⟩⟩
  refine Ends.onError ((write_ends _ (fun d _ => rfl) ?_).bind fun _ => Ends.assume fun hvacuum =>
    (write_ends (some ⟨image, true⟩) (fun d hd => ?_) ?_).mono (fun _ ht => ht) ?_
      fun _ _ ht => ht)
  · exact fun hfail t ht => ⟨.of_fails (by decide) (by decide) hfail,
      hremove t (ht.mono fun d hd => hd.unlinked)⟩
  · rw [hd]
    rfl
  · exact fun hfail t ht => ⟨.of_fails (by decide) (by decide) hfail,
      hremove t (ht.mono fun d hd => hd.unlinked)⟩
  · exact fun _ t ht => ⟨⟨hcreate, hvacuum, ht.1⟩, ht.2⟩

/-- `hard_link` publishes the copy where there is no entry. -/
theorem hardLink_ends {steps : List Step} (hsteps : steps ++ [.hardLink] = stepsToLink)
    {R : BackupError → _} :
    Ends (Traced.At Keeps (Before env entry steps (some ⟨image, true⟩))) (hardLink env)
      (fun published t =>
        if published = .linked then (env.fails .hardLink = false ∧ env.Free entry stepsToLink) ∧
          t.At Keeps (After image (some ⟨image, true⟩))
        else env.Finishes entry ∧ t.At Keeps Unlinked) R := by
  apply Ends.modifyGet
  intro t ht
  have harrived := At.arrive (s := .hardLink) Before.arrive ht
  rw [hsteps] at harrived
  cases hfail : env.fails .hardLink with
  | true =>
    exact ⟨.of_fails (by decide) (by decide) hfail, harrived.mono fun d hd => hd.unlinked⟩
  | false =>
    cases hsome : (t.step (env.arrive .hardLink)).now.target with
    | some x =>
      have hnot : ¬env.Free entry stepsToLink := by
        rw [← harrived.now.free, hsome]
        exact Option.some_ne_none x
      simp only [hsome, Option.isSome_some, if_true, Bool.false_eq_true, if_false]
      exact ⟨.of_not_free (List.Subset.refl _) hnot, harrived.mono fun d hd => hd.unlinked⟩
    | none =>
      simp only [hsome, Option.isSome_none, Bool.false_eq_true, if_false, if_true]
      refine ⟨⟨trivial, harrived.now.free.mp hsome⟩, harrived.step ?_ ⟨harrived.now.tmp, ?_⟩⟩
      · intro x hx
        rw [hsome] at hx
        cases hx
      · rw [Dir.link, harrived.now.tmp, Option.map_some]

/-- The steps after the link, which was made. -/
theorem finish_ends (hlinks : env.Links entry) :
    Ends (Traced.At Keeps (After image (some ⟨image, true⟩)))
      (do
        let removed ← removeIfPresent env .removeTmp
        attempt (!removed) .write id
        step env .syncDir .write id : Publish ε Unit)
      (fun _ t => env.Finishes entry ∧ t.At Keeps (After image none))
      fun _ t => t.At Keeps fun d => Absent d ↔ env.Finishes entry := by
  refine (removeIfPresent_ends (Q := After image none) After.arrive fun d hd =>
    ⟨rfl, hd.target⟩).bind
    fun removed => ?_
  cases removed with
  | false =>
    refine Ends.assume fun hfail => Ends.attempt_bind (Q := fun _ => False) ?_
      (fun h => by cases h) fun h => by cases h
    refine fun _ t ht => ht.mono fun d hd => iff_of_false hd.not_absent fun hfin => ?_
    cases hfail.symm.trans (hfin hlinks).1
  | true =>
    refine Ends.assume fun hremoved => ?_
    refine Ends.attempt_bind (Q := Traced.At Keeps (After image none)) (fun h => by cases h)
      (fun _ _ ht => ht) fun _ => ?_
    refine (step_ends (Q := After image none) After.arrive
      (fun d hd => ⟨keeps_of_eq rfl, hd⟩) ?_).mono
      (fun _ ht => ht) (fun _ t ht => ⟨fun _ => ⟨hremoved, ht.1⟩, ht.2⟩) fun _ _ ht => ht
    refine fun hfail t ht => ht.mono fun d hd => iff_of_false hd.not_absent fun hfin => ?_
    cases hfail.symm.trans (hfin hlinks).2

/-- `backup_to_file` leaves the copy at the target; with an error it leaves nothing exactly if the
steps after a link that is made do not fail. -/
theorem backupToFile_ends (hclean : env.fails .cleanup = false) :
    Ends (Traced.At Keeps (Before env entry [] none)) (backupToFile env image)
      (fun _ t => env.Finishes entry ∧ t.At Keeps (After image none))
      fun _ t => t.At Keeps fun d => Absent d ↔ env.Finishes entry := by
  have hearly : ∀ t : Traced (Dir ε), env.Finishes entry ∧ t.At Keeps Absent →
      t.At Keeps fun d => Absent d ↔ env.Finishes entry :=
    fun t ht => ht.2.mono fun d hd => iff_of_true hd ht.1
  apply Ends.bind (Q := fun found t => (found = true → ¬env.Free entry [.targetCheck]) ∧
    t.At Keeps (Before env entry [.targetCheck] none))
  · refine Ends.modifyGet fun t ht => ?_
    have harrived : Traced.At Keeps (Before env entry [.targetCheck] none) _ :=
      At.arrive (s := .targetCheck) Before.arrive ht
    refine ⟨fun hfound => ?_, harrived⟩
    rw [← harrived.now.free]
    exact Option.isSome_iff_ne_none.mp (Bool.and_eq_true_iff.mp hfound).2
  intro found
  refine Ends.assume fun hfound => ?_
  refine Ends.attempt_bind (Q := Traced.At Keeps (Before env entry [.targetCheck] none)) ?_
    (fun _ _ ht => ht) fun _ => ?_
  · exact fun h t ht => hearly t ⟨.of_not_free (by decide) (hfound h),
      ht.mono fun d hd => ⟨hd.unlinked, hd.tmp⟩⟩
  refine ((look_ends (by decide) (by decide)).mono_error fun _ => hearly).bind fun _ =>
    Ends.assume fun hopen => ?_
  refine ((look_ends (by decide) (by decide)).mono_error fun _ => hearly).bind fun _ =>
    Ends.assume fun hkeycheck => ?_
  refine ((snapshot_ends hclean).mono_error fun _ => hearly).bind fun _ =>
    Ends.assume fun hsnapshot => ?_
  refine (hardLink_ends rfl).bind fun published => ?_
  cases published with
  | alreadyExists | failed =>
    simp only [reduceCtorEq, if_false]
    refine Ends.assume fun hfin => ?_
    refine (removeIfPresent_ends (Q := Absent) (unlinked_arrive env _) fun d hd => ⟨hd, rfl⟩).bind
      fun removed => Ends.throw fun t ht => ?_
    cases removed with
    | true => exact hearly t ⟨hfin, ht.2⟩
    | false => cases hclean.symm.trans ht.1
  | linked =>
    simp only [if_true]
    refine Ends.assume fun hlink => finish_ends ⟨hlink.2, ?_⟩
    simp only [stepsToLink, List.forall_mem_cons]
    exact ⟨fun hne => absurd rfl hne, fun _ => hopen, fun _ => hkeycheck, fun _ => hsnapshot.1,
      fun _ => hsnapshot.2.1, fun _ => hsnapshot.2.2, fun _ => hlink.1, List.forall_mem_nil _⟩

/-- **A backup is published atomically or not at all, exactly when no step fails after the link was
made**, for every choice of failing steps and of entries another process creates at the target,
whatever is there at the start. Then an entry of another process stays as it is in every later
state; a call that succeeds leaves the complete flushed copy at the target and no temporary file;
one that ends with an error leaves neither. -/
theorem backup_published_or_absent (env : Env ε) (image : Bytes) (entry : Option ε)
    (hclean : env.fails .cleanup = false) {result : Except BackupError Unit} {t : Traced (Dir ε)}
    (hrun : (backupToFile env image).exec (.start ⟨entry.map .foreign, none⟩) = (result, t)) :
    ((t.states.Pairwise fun d d' =>
        ∀ x, d.target = some (.foreign x) → d'.target = some (.foreign x)) ∧
      (result = .ok () → t.now = ⟨some (.linked ⟨image, true⟩), none⟩) ∧
      ∀ error, result = .error error →
        (∀ file, t.now.target ≠ some (.linked file)) ∧ t.now.tmp = none) ↔
    env.Finishes entry := by
  have hstart : (Traced.start (⟨entry.map .foreign, none⟩ : Dir ε)).At Keeps
      (Before env entry [] none) := by
    refine .start ⟨rfl, fun file hfile => ?_, ?_⟩
    · obtain ⟨x, -, hx⟩ := Option.map_eq_some_iff.mp hfile
      cases hx
    · rw [Option.map_eq_none_iff, Env.Free]
      exact (and_iff_left (List.forall_mem_nil _)).symm
  obtain ⟨hok, herr⟩ := (backupToFile_ends hclean).run hstart
  cases result with
  | ok =>
    obtain ⟨hfin, ht⟩ := hok () t hrun
    exact iff_of_true ⟨ht.pairwise, fun _ => Dir.ext ht.now.target ht.now.tmp,
      fun _ h => by cases h⟩ hfin
  | error e =>
    have ht := herr e t hrun
    refine ⟨fun h => ht.now.mp (h.2.2 e rfl), fun hfin => ?_⟩
    exact ⟨ht.pairwise, (fun h => by cases h), fun _ _ => ht.now.mpr hfin⟩

/-! ## Another process is faster, and a directory that cannot be flushed -/

namespace Raced

/-- The entry appears after the target was found free. -/
def raced : Env Nat := ⟨fun _ => false, fun s => if s = .vacuumInto then some 7 else none⟩

/-- Only the flush of the directory fails. -/
def unflushed : Env Nat := ⟨fun s => s = .syncDir, fun _ => none⟩

/-- Only the removal of the temporary name fails. -/
def unremoved : Env Nat := ⟨fun s => s = .removeTmp, fun _ => none⟩

end Raced

open Raced in
theorem backup_published_or_absent_raced :
    ((backupToFile raced [1, 2]).exec (.start ⟨none, none⟩)).1 = .error .targetExists ∧
    ((backupToFile raced [1, 2]).exec (.start ⟨none, none⟩)).2.now.tmp = none :=
  ⟨rfl, (((backup_published_or_absent raced [1, 2] none rfl rfl).mpr fun _ => ⟨rfl, rfl⟩).2.2
    .targetExists rfl).2⟩

open Raced in
/-- A flush of the directory that fails reports an error with the copy published, and so does a
removal of the temporary name, which stays too. -/
theorem late_failure_leaves_the_copy :
    ((backupToFile unflushed [1, 2]).exec (.start ⟨none, none⟩)).1 = .error .write ∧
    ((backupToFile unflushed [1, 2]).exec (.start ⟨none, none⟩)).2.now =
      ⟨some (.linked ⟨[1, 2], true⟩), none⟩ ∧
    ((backupToFile unremoved [1, 2]).exec (.start ⟨none, none⟩)).1 = .error .write ∧
    ((backupToFile unremoved [1, 2]).exec (.start ⟨none, none⟩)).2.now =
      ⟨some (.linked ⟨[1, 2], true⟩), some ⟨[1, 2], true⟩⟩ :=
  ⟨rfl, rfl, rfl, rfl⟩

end Kohaku.Backup.ToFile
