import Kohaku.Lts.Exec
import Kohaku.Routing.Agree

/-!
# Project requests side by side

The admin pages look a project up by its slug on a reader and change it later, by its id, in a
transaction of the writer; the command line creates projects beside them. Whatever comes in between,
a transaction makes one of three changes, each with its audit entry: it inserts a project with a new
id, replaces the settings of the project looked up, or deletes that project. Every property of the
store over a run follows from what these changes keep.
-/

namespace Kohaku.Projects

open Sql

/-! ## The requests -/

/-- A request between its lookup and its transaction. -/
inductive Waiting
  | create (slug : Str) (settings : Settings) (actor : Actor)
  | save (project : ProjectRow) (settings : Settings) (actor : Actor)
  | delete (project : ProjectRow) (actor : Actor)

/-- The project the lookup returned; a creation looks nothing up. -/
def Waiting.project : Waiting → Option ProjectRow
  | create .. => none
  | save project .. => some project
  | delete project _ => some project

/-- The store after a transaction; one that fails is rolled back. -/
def committed {α : Type} (store : Store) : Except Store.Error (α × Store) → Store
  | .ok (_, store') => store'
  | .error _ => store

/-- The transaction of a request. -/
def Waiting.commit (store : Store) (now : Time) : Waiting → Store
  | create slug settings actor => committed store (store.create slug settings actor now)
  | save project settings actor => committed store (store.update project.id settings actor now)
  | delete project actor => (store.delete project.id actor now).2

/-- `find` of the admin pages: the project named by a path's slug; `none` for a malformed or unknown
one. -/
def lookup (store : Store) (slug : Str) : Option ProjectRow :=
  (parseSlug slug).toOption.bind store.find

/-- The store and the requests that wait for the writer. -/
structure Desk where
  store : Store
  waiting : List Waiting

/-- What the admin pages and the command line do. The command line is one that is run with the
server's base URL; one with another is looked at in `Routing.MainHost`. -/
inductive Act
  /-- `POST /admin/projects` up to its transaction. -/
  | create (form : CreateForm) (actor : Actor)
  /-- `POST /admin/p/{slug}/settings` up to its transaction. -/
  | save (slug : Str) (form : SettingsForm) (actor : Actor)
  /-- `POST /admin/p/{slug}/delete` up to its transaction. -/
  | delete (slug confirm : Str) (actor : Actor)
  /-- The transaction of the `n`-th waiting request. -/
  | commit (n : Nat) (now : Time)
  /-- The `n`-th waiting request ends without its transaction. -/
  | drop (n : Nat)
  /-- `project create` on the command line. -/
  | createCli (args : CreateArgs) (now : Time)

namespace Desk

/-- The request waits for its transaction, unless it was answered. -/
def wait (s : Desk) (w : Option Waiting) : Desk := { s with waiting := s.waiting ++ w.toList }

/-- What `save` takes to its transaction. -/
def saving (base : BaseUrl) (store : Store) (slug : Str) (form : SettingsForm) (actor : Actor) :
    Option Waiting := do
  let project ← lookup store slug
  let settings ← (form.parse base).toOption
  return .save project settings actor

/-- What `delete` takes to its transaction. -/
def deleting (store : Store) (slug confirm : Str) (actor : Actor) : Option Waiting := do
  let project ← lookup store slug
  if confirm ≠ project.slug then none else some (.delete project actor)

/-- A request reads and waits for its transaction, or its transaction runs. -/
def step (base : BaseUrl) (s : Desk) : Act → Option Desk
  | .create form actor =>
    some
      (s.wait ((form.parse base).toOption.map fun (slug, settings) => .create slug settings actor))
  | .save slug form actor => some (s.wait (saving base s.store slug form actor))
  | .delete slug confirm actor => some (s.wait (deleting s.store slug confirm actor))
  | .commit n now => s.waiting[n]?.map fun w => ⟨w.commit s.store now, s.waiting.eraseIdx n⟩
  | .drop n => some { s with waiting := s.waiting.eraseIdx n }
  | .createCli args now =>
    match args.parse base with
    | .ok (slug, settings) =>
      some { s with store := committed s.store (s.store.create slug settings .cli now) }
    | .error _ => some s

/-- An act with the store and the waiting requests before and after it. -/
abbrev Event := Lts.Step Desk Act

end Desk

/-! ## The changes of a transaction -/

/-- The custom domain, if there is one, is a valid host other than the main host. -/
def Settings.HostOk (base : BaseUrl) (settings : Settings) : Prop :=
  ∀ host, settings.publicHost = some host → IsHost host ∧ host ≠ base.host.text

namespace Store

/-- No other project has the slug or the host of the row. -/
def Apart (store : Store) (p : ProjectRow) : Prop :=
  ∀ q ∈ store.projects, q.id ≠ p.id → q.slug ≠ p.slug ∧ ∀ host, p.host = some host →
    q.host ≠ some host

theorem id_newRow (slug : Str) (settings : Settings) (now : Time) (id : Nat) :
    (ProjectRow.mk id slug settings now).id = id := rfl

theorem id_withSettings (settings : Settings) (p : ProjectRow) :
    { p with settings }.id = p.id := rfl

/-- With a new project, and its entry. -/
def inserted (store : Store) (slug : Str) (settings : Settings) (actor : Actor) (now : Time) :
    Store :=
  { store with
    projects := store.projects.insertNew (fun id => ⟨id, slug, settings, now⟩)
      (id_newRow slug settings now) }.audit actor .projectCreate
        (.project (store.projects.seq + 1)) now

/-- With other settings of a project, and the entry. -/
def replaced (store : Store) (id : Nat) (settings : Settings) (actor : Actor) (now : Time) :
    Store :=
  { store with
    projects := store.projects.update (fun p => p.id = id) (fun p => { p with settings })
      (id_withSettings settings) }.audit actor .projectUpdate (.project id) now

/-- Without a project, and with the entry. -/
def removed (store : Store) (id : Nat) (actor : Actor) (now : Time) : Store :=
  { store with projects := store.projects.delete fun p => p.id = id }.audit actor .projectDelete
    (.project id) now

theorem projects_inserted (store : Store) (slug : Str) (settings : Settings) (actor : Actor)
    (now : Time) : (store.inserted slug settings actor now).projects =
      store.projects.insertNew fun id => ⟨id, slug, settings, now⟩ := rfl

theorem projects_replaced (store : Store) (id : Nat) (settings : Settings) (actor : Actor)
    (now : Time) : (store.replaced id settings actor now).projects =
      store.projects.update (fun p => p.id = id) fun p => { p with settings } := rfl

/-- What a transaction may do to the store, given which project it is about. -/
inductive Change (base : BaseUrl) (store : Store) : Option Nat → Store → Prop
  | same (target : Option Nat) : Change base store target store
  | insert {slug : Str} {settings : Settings} {actor : Actor} {now : Time}
      (hhost : settings.HostOk base)
      (hapart : store.Apart ⟨store.projects.seq + 1, slug, settings, now⟩) :
      Change base store none (store.inserted slug settings actor now)
  | replace {p : ProjectRow} {settings : Settings} {actor : Actor} {now : Time}
      (hhost : settings.HostOk base)
      (hp : store.projects.get? p.id = some p) (hne : p.settings ≠ settings)
      (hapart : store.Apart { p with settings }) :
      Change base store (some p.id) (store.replaced p.id settings actor now)
  | remove {p : ProjectRow} {actor : Actor} {now : Time} (hp : store.projects.get? p.id = some p) :
      Change base store (some p.id) (store.removed p.id actor now)

variable {store store' : Store} {base : BaseUrl} {slug : Str} {settings : Settings} {actor : Actor}
  {now : Time} {id : Nat} {p : ProjectRow} {target : Option Nat}

theorem apart_of_fits (h : store.fits p = true) : store.Apart p := by
  rw [fits, Bool.and_eq_true, Bool.not_eq_true', Table.any_eq_false] at h
  intro q hq hid
  have hq := h.2 q hq
  simp only [hid, ne_eq, not_false_eq_true, decide_true, Bool.true_and, Bool.or_eq_false_iff,
    decide_eq_false_iff_not, Bool.and_eq_false_imp] at hq
  refine ⟨hq.1, fun host hp hhost => ?_⟩
  exact hq.2 (by rw [hhost]; rfl) (hhost.trans hp.symm)

theorem change_create (hhost : settings.HostOk base) :
    Change base store none (committed store (store.create slug settings actor now)) := by
  rw [create]
  split
  · exact .same none
  · split
    · exact .same none
    · dsimp only
      split
      next hfits => exact .insert hhost (apart_of_fits hfits)
      next => exact .same none

theorem change_update (hhost : settings.HostOk base) :
    Change base store (some id) (committed store (store.update id settings actor now)) := by
  rw [update]
  split
  next => exact .same _
  next p hp =>
    obtain rfl : p.id = id := Table.key_of_get? hp
    split
    next => exact .same _
    next hne =>
      split
      next => exact .same _
      next =>
        split
        next hfits => exact .replace hhost hp hne (apart_of_fits hfits)
        next => exact .same _

theorem change_delete : Change base store (some id) (store.delete id actor now).2 := by
  rw [delete]
  split
  next => exact .same _
  next p hp =>
    obtain rfl : p.id = id := Table.key_of_get? hp
    exact .remove hp

/-! ## What the changes keep -/

theorem get?_inserted (i : Nat) : (store.inserted slug settings actor now).projects.get? i =
    if i = store.projects.seq + 1 then some ⟨store.projects.seq + 1, slug, settings, now⟩
    else store.projects.get? i :=
  AutoTable.get?_insertNew fun _ => rfl

theorem get?_replaced (i : Nat) : (store.replaced id settings actor now).projects.get? i =
    if i = id then (store.projects.get? i).map fun p => { p with settings }
    else store.projects.get? i := by
  rw [projects_replaced, AutoTable.toTable_update, Table.get?_update]
  cases hp : store.projects.get? i with
  | none => simp
  | some p =>
    obtain rfl : p.id = i := Table.key_of_get? hp
    by_cases hid : p.id = id <;> simp [hid]

theorem get?_removed (i : Nat) : (store.removed id actor now).projects.get? i =
    if i = id then none else store.projects.get? i := by
  change (store.projects.toTable.delete _).get? i = _
  rw [Table.get?_delete]
  cases hp : store.projects.get? i with
  | none => simp
  | some p =>
    obtain rfl : p.id = i := Table.key_of_get? hp
    by_cases hid : p.id = id <;> simp [hid]

/-- A change is about one stored project at most; a creation about none, it brings a new one. -/
theorem Change.get?_eq (h : Change base store target store') {i : Nat} (hi : target ≠ some i) :
    store'.projects.get? i = store.projects.get? i ∨ target = none ∧
      store.projects.get? i = none := by
  cases h with
  | same => exact .inl rfl
  | insert =>
    rw [get?_inserted]
    split
    next hseq =>
      refine .inr ⟨rfl, Table.get?_eq_none.mpr fun a ha hid => ?_⟩
      exact absurd (AutoTable.id_le_seq ha) (by rw [hid, hseq]; exact Nat.not_succ_le_self _)
    next => exact .inl rfl
  | replace => exact .inl (by rw [get?_replaced, if_neg fun hid => hi (congrArg some hid.symm)])
  | remove => exact .inl (by rw [get?_removed, if_neg fun hid => hi (congrArg some hid.symm)])

/-- The rows after a change: as before, or one that is apart from the others. -/
theorem Change.mem (h : Change base store target store') {q : ProjectRow}
    (hq : q ∈ store'.projects) : q ∈ store.projects ∨ q.settings.HostOk base ∧ store.Apart q ∧
      ∀ r ∈ store'.projects, r.id ≠ q.id → r ∈ store.projects := by
  cases h with
  | same => exact .inl hq
  | @insert slug settings actor now hhost hapart =>
    rcases AutoTable.mem_insertNew.mp hq with hq | rfl
    · exact .inl hq
    · refine .inr ⟨hhost, hapart, fun r hr hid => ?_⟩
      rcases AutoTable.mem_insertNew.mp hr with hr | rfl
      · exact hr
      · exact absurd rfl hid
  | @replace p settings actor now hhost hp hne hapart =>
    have hmem : ∀ {r}, r ∈ (store.replaced p.id settings actor now).projects →
        r ∈ store.projects ∧ r.id ≠ p.id ∨ r = { p with settings } := by
      intro r hr
      obtain ⟨a, ha, rfl⟩ := AutoTable.mem_update.mp hr
      by_cases hid : a.id = p.id
      · obtain rfl := Table.eq_of_key_eq ha (Table.mem_of_get? hp) hid
        exact .inr (if_pos (decide_eq_true rfl))
      · rw [if_neg (by simpa using hid)]
        exact .inl ⟨ha, hid⟩
    rcases hmem hq with ⟨hq, -⟩ | rfl
    · exact .inl hq
    · refine .inr ⟨hhost, hapart, fun r hr hid => ?_⟩
      rcases hmem hr with ⟨hr, -⟩ | rfl
      · exact hr
      · exact absurd rfl hid
  | remove => exact .inl (AutoTable.mem_delete.mp hq).1

/-- A change keeps slugs and hosts apart, and the main host free. -/
theorem Change.configured (h : Change base store target store')
    (hc : Routing.Configured store base) : Routing.Configured store' base := by
  -- a row that is apart from those before has no slug or host of another one
  have hpair : ∀ {p q : ProjectRow}, p ∈ store'.projects → q ∈ store'.projects → p.id ≠ q.id →
      p.slug ≠ q.slug ∧ ∀ host, p.host = some host → q.host ≠ some host := by
    intro p q hp hq hid
    rcases h.mem hp with hp' | ⟨-, hapart, hothers⟩
    · rcases h.mem hq with hq' | ⟨-, hapart, -⟩
      · refine ⟨fun hslug => hid (congrArg _ (hc.slugs hp' hq' hslug)), fun host hph hqh => ?_⟩
        exact hid (congrArg _ (hc.hosts hp' hq' hph hqh))
      · have hapart := hapart p hp' hid
        exact ⟨hapart.1, fun host hph hqh => hapart.2 host hqh hph⟩
    · have hapart := hapart q (hothers q hq hid.symm) hid.symm
      exact ⟨hapart.1.symm, hapart.2⟩
  have hown : ∀ {p}, p ∈ store'.projects → p.settings.HostOk base := by
    intro p hp
    rcases h.mem hp with hp | ⟨hhost, -⟩
    · intro host hph
      refine ⟨hc.valid hp hph, fun hmain => hc.notMain hp ?_⟩
      rw [← hmain]
      exact hph
    · exact hhost
  refine ⟨?_, ?_, fun hp hph => (hown hp _ hph).1, fun hp hmain => (hown hp _ hmain).2 rfl⟩
  · intro p q hp hq hslug
    by_contra hne
    exact (hpair hp hq fun hid => hne (AutoTable.eq_of_id_eq hp hq hid)).1 hslug
  · intro p q host hp hq hph hqh
    by_contra hne
    exact (hpair hp hq fun hid => hne (AutoTable.eq_of_id_eq hp hq hid)).2 host hph hqh

/-- A project keeps its id and its slug, and new ones get new ids. -/
theorem Change.grows (h : Change base store target store') :
    AutoTable.Grows (fun p q : ProjectRow => p.id = q.id ∧ p.slug = q.slug) store.projects
      store'.projects := by
  cases h with
  | same => exact ⟨_, .refl fun _ => ⟨rfl, rfl⟩, .inl rfl⟩
  | insert =>
    rw [projects_inserted]
    exact ⟨_, .refl fun _ => ⟨rfl, rfl⟩, .inr ⟨_, _, rfl⟩⟩
  | replace =>
    rw [projects_replaced]
    refine ⟨_, .update _ (fun _ => ⟨rfl, rfl⟩) ?_, .inl rfl⟩
    exact fun _ => ⟨rfl, rfl⟩
  | remove => exact ⟨_, .delete fun _ => ⟨rfl, rfl⟩, .inl rfl⟩

/-! ## The audit log -/

/-- The projects of the entries with the action. -/
def targets (action : Action) (log : List AuditRow) : List Nat :=
  log.filterMap fun e =>
    match e.target with
    | .project id => if e.action = action then some id else none
    | _ => none

theorem targets_append (action : Action) (log new : List AuditRow) :
    targets action (log ++ new) = targets action log ++ targets action new := List.filterMap_append

/-- Ids given one after the other up to `seq`, a log of those given and those taken back, and the
ones in use. -/
structure Allocated (seq : Nat) (given back : List Nat) (live : Nat → Prop) : Prop where
  given_le : ∀ i ∈ given, i ≤ seq
  back_le : ∀ i ∈ back, i ≤ seq
  nodup : given.Nodup
  live_iff : ∀ i, live i ↔ i ∈ given ∧ i ∉ back

namespace Allocated

variable {seq : Nat} {given back : List Nat} {live : Nat → Prop}

theorem give (h : Allocated seq given back live) :
    Allocated (seq + 1) (given ++ [seq + 1]) back fun i => i = seq + 1 ∨ live i := by
  refine ⟨?_, fun i hi => (h.back_le i hi).trans (Nat.le_succ _), ?_, ?_⟩
  · intro i hi
    rcases List.mem_append.mp hi with hi | hi
    · exact (h.given_le i hi).trans (Nat.le_succ _)
    · exact (List.mem_singleton.mp hi).le
  · rw [List.nodup_append_comm, List.singleton_append, List.nodup_cons]
    exact ⟨fun hmem => Nat.not_succ_le_self _ (h.given_le _ hmem), h.nodup⟩
  · intro i
    rw [h.live_iff, List.mem_append, List.mem_singleton]
    constructor
    · rintro (rfl | ⟨hg, hb⟩)
      · exact ⟨.inr rfl, fun hmem => Nat.not_succ_le_self _ (h.back_le _ hmem)⟩
      · exact ⟨.inl hg, hb⟩
    · rintro ⟨hg | rfl, hb⟩
      · exact .inr ⟨hg, hb⟩
      · exact .inl rfl

theorem take {j : Nat} (h : Allocated seq given back live) (hj : live j) :
    Allocated seq given (back ++ [j]) fun i => i ≠ j ∧ live i := by
  refine ⟨h.given_le, ?_, h.nodup, ?_⟩
  · intro i hi
    rcases List.mem_append.mp hi with hi | hi
    · exact h.back_le i hi
    · rw [List.mem_singleton.mp hi]
      exact h.given_le j ((h.live_iff j).mp hj).1
  · intro i
    rw [h.live_iff, List.mem_append, List.mem_singleton, not_or]
    tauto

theorem congr {live' : Nat → Prop} (h : Allocated seq given back live)
    (hiff : ∀ i, live' i ↔ live i) :
    Allocated seq given back live' :=
      ⟨h.given_le, h.back_le, h.nodup, fun i => (hiff i).trans (h.live_iff i)⟩

end Allocated

/-- The log tells which ids were given and which projects are left. -/
def Recorded (store : Store) : Prop :=
  Allocated store.projects.seq (targets .projectCreate store.auditLog)
    (targets .projectDelete store.auditLog) fun i => (store.projects.get? i).isSome = true

theorem Change.recorded (h : Change base store target store') (hr : Recorded store) :
    Recorded store' := by
  cases h with
  | same => exact hr
  | @insert slug settings actor now =>
    have hcreate : targets .projectCreate (store.inserted slug settings actor now).auditLog =
        targets .projectCreate store.auditLog ++ [store.projects.seq + 1] := targets_append _ _ _
    have hdelete : targets .projectDelete (store.inserted slug settings actor now).auditLog =
        targets .projectDelete store.auditLog := (targets_append _ _ _).trans (List.append_nil _)
    rw [Recorded, hcreate, hdelete]
    refine hr.give.congr fun i => ?_
    rw [get?_inserted]
    by_cases hi : i = store.projects.seq + 1 <;> simp [hi]
  | @replace p settings actor now =>
    have hcreate : targets .projectCreate (store.replaced p.id settings actor now).auditLog =
        targets .projectCreate store.auditLog := (targets_append _ _ _).trans (List.append_nil _)
    have hdelete : targets .projectDelete (store.replaced p.id settings actor now).auditLog =
        targets .projectDelete store.auditLog := (targets_append _ _ _).trans (List.append_nil _)
    rw [Recorded, hcreate, hdelete]
    refine hr.congr fun i => ?_
    rw [get?_replaced]
    split
    · rw [Option.isSome_map]
    · rfl
  | @remove p actor now hp =>
    have hcreate : targets .projectCreate (store.removed p.id actor now).auditLog =
        targets .projectCreate store.auditLog := (targets_append _ _ _).trans (List.append_nil _)
    have hdelete : targets .projectDelete (store.removed p.id actor now).auditLog =
        targets .projectDelete store.auditLog ++ [p.id] := targets_append _ _ _
    rw [Recorded, hcreate, hdelete]
    refine (hr.take (j := p.id) (by rw [hp]; rfl)).congr fun i => ?_
    rw [get?_removed]
    by_cases hi : i = p.id <;> simp [hi]

/-- A change that leaves every settings column as it was. -/
theorem not_changed {i : Nat}
    (h : ∀ p q, store.projects.get? i = some p → store'.projects.get? i = some q → p = q) :
    ¬∃ p q, store.projects.get? i = some p ∧ store'.projects.get? i = some q ∧
      p.settings ≠ q.settings := by
  rintro ⟨p, q, hp, hq, hne⟩
  exact hne (congrArg _ (h p q hp hq))

/-- At most one entry is recorded, and one of an update exactly when the settings of the project
change. -/
theorem Change.updates (h : Change base store target store') :
    ∃ new, store'.auditLog = store.auditLog ++ new ∧ new.length ≤ 1 ∧
      ∀ i, i ∈ targets .projectUpdate new ↔
      ∃ p q, store.projects.get? i = some p ∧ store'.projects.get? i = some q ∧
      p.settings ≠ q.settings := by
  cases h with
  | same =>
    refine ⟨[], (List.append_nil _).symm, Nat.zero_le 1, fun i => iff_of_false List.not_mem_nil ?_⟩
    exact not_changed fun p q hp hq => Option.some.inj (hp.symm.trans hq)
  | insert =>
    refine ⟨_, rfl, Nat.le_refl 1, fun i => iff_of_false List.not_mem_nil
      (not_changed fun p q hp hq => ?_)⟩
    have hle : i ≤ store.projects.seq := by
      rw [← Table.key_of_get? hp]
      exact AutoTable.id_le_seq (Table.mem_of_get? hp)
    rw [get?_inserted, if_neg (Nat.lt_succ_of_le hle).ne, hp] at hq
    exact Option.some.inj hq
  | @replace p settings actor now _ hp hne =>
    refine ⟨_, rfl, Nat.le_refl 1, fun i => ?_⟩
    change i ∈ [p.id] ↔ _
    rw [List.mem_singleton]
    constructor
    · rintro rfl
      exact ⟨p, { p with settings }, hp, by rw [get?_replaced, if_pos rfl, hp]; rfl, hne⟩
    · intro hchanged
      by_contra hi
      refine not_changed (fun p q hp hq => ?_) hchanged
      rw [get?_replaced, if_neg hi, hp] at hq
      exact Option.some.inj hq
  | @remove p actor now hp =>
    refine ⟨_, rfl, Nat.le_refl 1, fun i => iff_of_false List.not_mem_nil
      (not_changed fun q r hq hr => ?_)⟩
    rw [get?_removed] at hr
    split at hr
    · cases hr
    · exact Option.some.inj (hq.symm.trans hr)

end Store

/-! ## Steps -/

/-- The settings a request brings come from a form that was accepted. -/
def Waiting.Ok (base : BaseUrl) : Waiting → Prop
  | create _ settings _ | save _ settings _ => settings.HostOk base
  | delete _ _ => True

theorem Waiting.change {base : BaseUrl} {w : Waiting} (h : w.Ok base) (store : Store) (now : Time) :
    store.Change base (w.project.map ProjectRow.id) (w.commit store now) := by
  cases w with
  | create slug settings actor => exact Store.change_create h
  | save project settings actor => exact Store.change_update h
  | delete project actor => exact Store.change_delete

namespace Desk

variable {base : BaseUrl} {s s' : Desk} {a : Act} {w : Waiting} {q : ProjectRow}

/-- The step looks the project up, by a slug on its path. -/
def LooksUp (e : Event) (q : ProjectRow) : Prop :=
  ∃ slug, ((∃ form actor, e.label = .save slug form actor) ∨ ∃ confirm actor, e.label =
    .delete slug confirm actor) ∧ lookup e.pre.store slug = some q

/-- The step runs the transaction of the request. -/
def Commits (e : Event) (w : Waiting) : Prop :=
  ∃ n now, e.label = .commit n now ∧ e.pre.waiting[n]? = some w

theorem mem_wait {o : Option Waiting} : w ∈ (s.wait o).waiting ↔ w ∈ s.waiting ∨ o = some w := by
  rw [wait, List.mem_append, Option.mem_toList]

theorem eq_ok_of_toOption {ε α : Type} {x : Except ε α} {a : α} (h : x.toOption = some a) :
    x = .ok a := by
  cases x with
  | error e => cases h
  | ok b =>
    cases h
    rfl

/-- Where a waiting request comes from: it waited before, or it has just brought what it was sent
and looked up. -/
theorem waiting_of_step (hstep : s.step base a = some s') (hw : w ∈ s'.waiting) :
    w ∈ s.waiting ∨ w.Ok base ∧ ∀ q, w.project = some q → LooksUp ⟨s, a, s'⟩ q := by
  cases a with
  | create form actor =>
    cases hstep
    refine (mem_wait.mp hw).imp_right fun hnew => ?_
    obtain ⟨⟨slug, settings⟩, hparse, rfl⟩ := Option.map_eq_some_iff.mp hnew
    refine ⟨fun host hhost => CreateForm.host_of_parse (eq_ok_of_toOption hparse) hhost, ?_⟩
    intro q hq
    cases hq
  | save slug form actor =>
    cases hstep
    refine (mem_wait.mp hw).imp_right fun hnew => ?_
    obtain ⟨project, hlookup, hrest⟩ := Option.bind_eq_some_iff.mp hnew
    obtain ⟨settings, hparse, hsome⟩ := Option.bind_eq_some_iff.mp hrest
    cases hsome
    refine ⟨fun host hhost => SettingsForm.host_of_parse (eq_ok_of_toOption hparse) hhost, ?_⟩
    intro q hq
    cases hq
    exact ⟨slug, .inl ⟨form, actor, rfl⟩, hlookup⟩
  | delete slug confirm actor =>
    cases hstep
    refine (mem_wait.mp hw).imp_right fun hnew => ?_
    obtain ⟨project, hlookup, hrest⟩ := Option.bind_eq_some_iff.mp hnew
    obtain ⟨-, hsome⟩ := Option.ite_none_left_eq_some.mp hrest
    cases hsome
    refine ⟨trivial, fun q hq => ?_⟩
    cases hq
    exact ⟨slug, .inr ⟨confirm, actor, rfl⟩, hlookup⟩
  | commit n now =>
    obtain ⟨w', -, rfl⟩ := Option.map_eq_some_iff.mp hstep
    exact .inl (List.mem_of_mem_eraseIdx hw)
  | drop n =>
    cases hstep
    exact .inl (List.mem_of_mem_eraseIdx hw)
  | createCli args now =>
    rw [step] at hstep
    split at hstep
    · cases hstep
      exact .inl hw
    · cases hstep
      exact .inl hw

/-- Every step changes the store as one of the transactions does, or not at all. -/
theorem change_of_step (hok : ∀ w ∈ s.waiting, w.Ok base) (hstep : s.step base a = some s') :
    ∃ target, s.store.Change base target s'.store := by
  cases a with
  | create | save | delete | drop =>
    cases hstep
    exact ⟨none, .same none⟩
  | commit n now =>
    obtain ⟨w, hw, rfl⟩ := Option.map_eq_some_iff.mp hstep
    exact ⟨_, Waiting.change (hok w (List.mem_of_getElem? hw)) s.store now⟩
  | createCli args now =>
    rw [step] at hstep
    split at hstep
    next slug settings hparse =>
      cases hstep
      exact ⟨none, Store.change_create fun host hhost => CreateArgs.host_of_parse hparse hhost⟩
    next =>
      cases hstep
      exact ⟨none, .same none⟩

/-! ## Runs -/

/-- No project was created yet. -/
structure Init (s : Desk) : Prop where
  projects : s.store.projects = .empty
  created : Store.targets .projectCreate s.store.auditLog = []
  deleted : Store.targets .projectDelete s.store.auditLog = []
  waiting : s.waiting = []

/-- What holds of the store and of the waiting requests, given the steps so far. -/
structure Inv (base : BaseUrl) (h : List Event) (s : Desk) : Prop where
  configured : Routing.Configured s.store base
  recorded : s.store.Recorded
  ok : ∀ w ∈ s.waiting, w.Ok base
  lookedUp : ∀ w ∈ s.waiting, ∀ q, w.project = some q → ∃ e ∈ h, LooksUp e q

theorem Init.inv (h : Init s) : Inv base [] s := by
  have hnone : ∀ p, p ∉ s.store.projects := by
    rw [h.projects]
    exact fun _ => AutoTable.not_mem_empty
  refine ⟨⟨?_, ?_, ?_, ?_⟩, ?_, ?_, ?_⟩
  · exact fun hp => absurd hp (hnone _)
  · exact fun hp => absurd hp (hnone _)
  · exact fun hp => absurd hp (hnone _)
  · exact fun hp => absurd hp (hnone _)
  · rw [Store.Recorded, h.created, h.deleted, h.projects]
    exact ⟨fun i hi => absurd hi List.not_mem_nil, fun i hi => absurd hi List.not_mem_nil,
      List.nodup_nil,
      fun i => iff_of_false Bool.false_ne_true fun hi => absurd hi.1 List.not_mem_nil⟩
  · rw [h.waiting]
    exact fun w hw => absurd hw List.not_mem_nil
  · rw [h.waiting]
    exact fun w hw => absurd hw List.not_mem_nil

theorem Inv.step {h : List Event} (I : Inv base h s) (hstep : s.step base a = some s') :
    Inv base (h ++ [⟨s, a, s'⟩]) s' := by
  obtain ⟨target, hchange⟩ := change_of_step I.ok hstep
  refine ⟨hchange.configured I.configured, hchange.recorded I.recorded, ?_, ?_⟩
  · intro w hw
    rcases waiting_of_step hstep hw with hold | ⟨hok, -⟩
    · exact I.ok w hold
    · exact hok
  · intro w hw q hq
    rcases waiting_of_step hstep hw with hold | ⟨-, hlooks⟩
    · obtain ⟨e, he, hlooks⟩ := I.lookedUp w hold q hq
      exact ⟨e, List.mem_append_left _ he, hlooks⟩
    · exact ⟨_, List.mem_append_right _ (List.mem_singleton_self _), hlooks q hq⟩

theorem Inv.run {s₀ : Desk} {h : List Event} (h0 : Init s₀) (H : Lts.Exec (Desk.step base) s₀ h s) :
    Inv base h s :=
  H.rec_snoc (fun h t => Inv base h t) h0.inv fun _ I hstep => I.step hstep

/-- A project keeps its slug, and its id is given to no other. -/
theorem slug_kept {h : List Event} (hok : ∀ e ∈ h, ∀ w ∈ e.pre.waiting, w.Ok base)
    (H : Lts.Exec (Desk.step base) s h s') {p q : ProjectRow} (hp : p ∈ s.store.projects)
    (hq : q ∈ s'.store.projects) (hid : p.id = q.id) : p.slug = q.slug := by
  have hkept : p.id ≤ s'.store.projects.seq ∧ ∀ b ∈ s'.store.projects, b.id = p.id →
      p.slug = b.slug := by
    refine H.stays
      (fun t => p.id ≤ t.store.projects.seq ∧ ∀ b ∈ t.store.projects, b.id = p.id →
        p.slug = b.slug) ?_ ?_
    · refine ⟨AutoTable.id_le_seq hp, fun b hb hbid => ?_⟩
      rw [AutoTable.eq_of_id_eq hb hp hbid]
    · intro h₁ e h₂ heq _ hstep hpre
      obtain ⟨target, hchange⟩ := change_of_step (hok e (heq ▸ by simp)) hstep
      refine ⟨hpre.1.trans hchange.grows.seq_le, ?_⟩
      exact hchange.grows.kept (fun h => h.1) (fun h hslug => hslug.trans h.2) hpre.1 hpre.2
  exact hkept.2 q hq hid.symm

end Desk

open Desk

/-- Project store consistency, over every interleaving of admin requests and command-line creations:
slugs and custom domains stay apart and the main host stays free; a project keeps its slug, and no
id is given twice; a transaction changes no project but the one its request looked up; the log
accounts for the projects that are left; and an update is recorded exactly when a stored setting
changes. -/
theorem project_store_consistent (base : BaseUrl) {s₀ s : Desk} {h : List Desk.Event} (h0 : Init s₀)
    (H : Lts.Exec (Desk.step base) s₀ h s) :
    Routing.Configured s.store base ∧
    (∀ e ∈ h, ∀ p ∈ e.pre.store.projects, ∀ q ∈ s.store.projects, p.id = q.id → p.slug = q.slug) ∧
    (Store.targets .projectCreate s.store.auditLog).Nodup ∧
    (∀ h₁ e h₂ w, h = h₁ ++ e :: h₂ → Commits e w →
      (∀ q, w.project = some q → ∃ e' ∈ h₁, LooksUp e' q) ∧
      ∀ i, w.project.map ProjectRow.id ≠ some i →
        e.post.store.projects.get? i = e.pre.store.projects.get? i ∨
          w.project = none ∧ e.pre.store.projects.get? i = none) ∧
    (∀ i, (∃ p ∈ s.store.projects, p.id = i) ↔ i ∈ Store.targets .projectCreate s.store.auditLog ∧
      i ∉ Store.targets .projectDelete s.store.auditLog) ∧
    (∀ e ∈ h, ∃ new, e.post.store.auditLog = e.pre.store.auditLog ++ new ∧ new.length ≤ 1 ∧
      ∀ i, i ∈ Store.targets .projectUpdate new ↔
        ∃ p q, e.pre.store.projects.get? i = some p ∧ e.post.store.projects.get? i = some q ∧
          p.settings ≠ q.settings) := by
  have I := Inv.run h0 H
  have hok : ∀ e ∈ h, ∀ w ∈ e.pre.waiting, w.Ok base := by
    intro e he
    obtain ⟨_, _, _, H₁, -, -⟩ := H.of_mem he
    exact (Inv.run h0 H₁).ok
  refine ⟨I.configured, ?_, I.recorded.nodup, ?_, ?_, ?_⟩
  · intro e he p hp q hq hid
    obtain ⟨h₁, h₂, rfl, -, hstep, H₂⟩ := H.of_mem he
    exact slug_kept (fun e' he' => hok e' (List.mem_append_right _ he')) (.cons hstep H₂) hp hq hid
  · rintro h₁ e h₂ w rfl ⟨n, now, hlabel, hw⟩
    obtain ⟨H₁, hstep, -⟩ := H.split
    have I₁ := Inv.run h0 H₁
    have hmem := List.mem_of_getElem? hw
    refine ⟨I₁.lookedUp w hmem, fun i hi => ?_⟩
    rw [hlabel, Desk.step, hw] at hstep
    have hpost := Option.some.inj hstep
    rw [← hpost]
    have hchange := Waiting.change (I₁.ok w hmem) e.pre.store now
    refine (hchange.get?_eq hi).imp_right fun hnew => ?_
    exact ⟨Option.map_eq_none_iff.mp hnew.1, hnew.2⟩
  · intro i
    rw [← I.recorded.live_iff i, Option.isSome_iff_exists]
    exact exists_congr fun p => Table.get?_eq_some.symm
  · intro e he
    obtain ⟨target, hchange⟩ := change_of_step (hok e he) (H.step_of_mem he)
    exact hchange.updates

/-! ## A project that is deleted and created again -/

namespace Recreated

theorem isDnsName_host : isDnsName "kohaku.test".toList = true := by decide

/-- The server's base URL. -/
def base : BaseUrl := ⟨true, ⟨"kohaku.test".toList, isDnsName_host⟩, none⟩

/-- A project with a custom domain. -/
def args : CreateArgs :=
  ⟨some "demo".toList, some "Demo".toList, some (some "bugs.kohaku.test".toList)⟩

/-- The settings form, with a new name and without the domain. -/
def form : SettingsForm where
  name := "Renamed".toList
  publicHost := []
  screenshotsEnabled := none
  featuresEnabled := none
  requireEmail := none
  plusOneEnabled := none
  privacyNotice := []
  securityContact := []

/-- No projects and no requests. -/
def start : Desk := ⟨⟨.empty, []⟩, []⟩

/-- A save and a deletion find the first project; the save comes after the second one was
created. -/
def acts : List Act :=
  [.createCli args 0, .save "demo".toList form .cli, .delete "demo".toList "demo".toList .cli,
    .commit 1 10, .createCli args 20, .commit 0 30]

/-- The run of these acts. -/
def history : List Desk.Event := Lts.history (Desk.step base) start acts

theorem run : Lts.Exec (Desk.step base) start history (Lts.last start history) :=
  .of_history (by decide)

end Recreated

open Recreated in
theorem project_store_consistent_recreated :
    Routing.Configured (Lts.last start history).store base ∧
      ∀ i, (∃ p ∈ (Lts.last start history).store.projects, p.id = i) ↔ i = 2 := by
  obtain ⟨hconfigured, -, -, -, hlive, -⟩ := project_store_consistent base ⟨rfl, rfl, rfl, rfl⟩ run
  refine ⟨hconfigured, fun i => (hlive i).trans ?_⟩
  have hcreated : Store.targets .projectCreate (Lts.last start history).store.auditLog =
      [1, 2] := by
    decide
  have hdeleted : Store.targets .projectDelete (Lts.last start history).store.auditLog = [1] := by
    decide
  rw [hcreated, hdeleted, List.mem_pair, List.mem_singleton]
  omega

end Kohaku.Projects
