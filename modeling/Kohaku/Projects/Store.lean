import Kohaku.Db
import Kohaku.Projects.Fields
import Kohaku.Sql.Glob

/-!
# The project store

The `projects` table with its constraints, every change to it with its audit entry, and the forms
and arguments the changes come from. A change runs in the writer's transaction; one that fails
leaves the store as it was.
-/

namespace Kohaku.Projects

open Sql

/-- Everything about a project the admin can change. -/
structure Settings where
  name : Str
  publicHost : Option Str
  screenshotsEnabled : Bool
  featuresEnabled : Bool
  requireEmail : Bool
  plusOneEnabled : Bool
  privacyNotice : Option Str
  securityContact : Option Str
  deriving DecidableEq

/-- A new project's settings: every switch off except +1. -/
def Settings.new (name : Str) (publicHost : Option Str) : Settings where
  name := name
  publicHost := publicHost
  screenshotsEnabled := false
  featuresEnabled := false
  requireEmail := false
  plusOneEnabled := true
  privacyNotice := none
  securityContact := none

/-- A row of `projects`. -/
structure ProjectRow where
  id : Nat
  slug : Str
  settings : Settings
  createdAt : Time
  deriving DecidableEq

/-- The custom domain. -/
def ProjectRow.host (p : ProjectRow) : Option Str := p.settings.publicHost

/-! ## The constraints of the table -/

/-- What SQLite's `length` and `GLOB` see of a text: it ends at the first NUL. -/
def cText (text : Str) : Str := text.takeWhile fun c => c.toNat ≠ 0

theorem cText_of_notMem {text : Str} (h : '\x00' ∉ text) : cText text = text := by
  rw [cText, List.takeWhile_eq_self_iff]
  intro c hc
  have hne : c.toNat ≠ '\x00'.toNat := fun h0 => h (Char.toNat_inj.mp h0 ▸ hc)
  exact decide_eq_true hne

/-- `length(slug) BETWEEN 1 AND 40 AND slug GLOB '[a-z0-9]*' AND NOT slug GLOB '*[^a-z0-9-]*'`. -/
def slugCheck (slug : Str) : Bool :=
  let s := cText slug
  (1 ≤ s.length && s.length ≤ 40) && glob "[a-z0-9]*" s && !glob "*[^a-z0-9-]*" s

/-- `length(name) BETWEEN 1 AND 80`. -/
def nameCheck (name : Str) : Bool := 1 ≤ (cText name).length && (cText name).length ≤ 80

/-- `length(public_host) BETWEEN 3 AND 253 AND public_host GLOB '*.*' AND NOT public_host GLOB
'*[^a-z0-9.-]*'`. -/
def hostCheck (host : Str) : Bool :=
  let s := cText host
  (3 ≤ s.length && s.length ≤ 253) && glob "*.*" s && !glob "*[^a-z0-9.-]*" s

/-- `length(CAST(privacy_notice AS BLOB)) BETWEEN 1 AND 1024`. -/
def noticeCheck (notice : Str) : Bool :=
  1 ≤ (asBytes notice).length && (asBytes notice).length ≤ 1024

/-- `length(security_contact) BETWEEN 1 AND 254`. -/
def contactCheck (contact : Str) : Bool :=
  1 ≤ (cText contact).length && (cText contact).length ≤ 254

/-- The `CHECK` constraints of a row. -/
def ProjectRow.checks (p : ProjectRow) : Bool :=
  slugCheck p.slug && nameCheck p.settings.name && p.settings.publicHost.all hostCheck &&
    p.settings.privacyNotice.all noticeCheck && p.settings.securityContact.all contactCheck

/-- The tables the project functions use. -/
structure Store where
  projects : AutoTable ProjectRow ProjectRow.id
  auditLog : List AuditRow

namespace Store

/-- `audit`: one entry in the caller's transaction. -/
def audit (store : Store) (actor : Actor) (action : Action) (target : Target) (now : Time) :
    Store :=
  { store with auditLog := store.auditLog ++ [⟨actor, action, target, now⟩] }

/-- The row meets the `CHECK` and `UNIQUE` constraints next to the others. -/
def fits (store : Store) (p : ProjectRow) : Bool :=
  p.checks && !store.projects.any fun q =>
    q.id ≠ p.id && (q.slug = p.slug || (q.host.isSome && q.host = p.host))

/-- The project with the slug, if any. -/
def find (store : Store) (slug : Str) : Option ProjectRow :=
  store.projects.find? fun p => p.slug = slug

/-- A project other than `except` has the host. -/
def hostTaken (store : Store) (host : Option Str) (except : Nat) : Bool :=
  match host with
  | none => false
  | some host => store.projects.any fun p => p.host = some host && p.id ≠ except

/-- Why a change was refused or failed. -/
inductive Error
  | invalid (problem : Problem)
  | database
  deriving DecidableEq

/-- Creates a project and records `project.create`; returns its id. -/
def create (store : Store) (slug : Str) (settings : Settings) (actor : Actor) (now : Time) :
    Except Error (Nat × Store) :=
  if store.projects.any fun p => p.slug = slug then .error (.invalid slugTaken)
  else if store.hostTaken settings.publicHost 0 then .error (.invalid Projects.hostTaken)
  else
    let id := store.projects.seq + 1
    if store.fits ⟨id, slug, settings, now⟩ then
      let store := { store with
        projects := store.projects.insertNew fun id => ⟨id, slug, settings, now⟩ }
      .ok (id, store.audit actor .projectCreate (.project id) now)
    else .error .database

/-- Replaces the settings of a project and records `project.update`; `false` when they are unchanged
or the project is gone, which records nothing. -/
def update (store : Store) (id : Nat) (settings : Settings) (actor : Actor) (now : Time) :
    Except Error (Bool × Store) :=
  match store.projects.get? id with
  | none => .ok (false, store)
  | some project =>
    if project.settings = settings then .ok (false, store)
    else if store.hostTaken settings.publicHost id then .error (.invalid Projects.hostTaken)
    else if store.fits { project with settings } then
      let store := { store with
        projects := store.projects.update (fun p => p.id = id) fun p => { p with settings } }
      .ok (true, store.audit actor .projectUpdate (.project id) now)
    else .error .database

/-- Deletes a project and records `project.delete`; `false` when it no longer exists. -/
def delete (store : Store) (id : Nat) (actor : Actor) (now : Time) : Bool × Store :=
  match store.projects.get? id with
  | none => (false, store)
  | some _ =>
    let store := { store with projects := store.projects.delete fun p => p.id = id }
    (true, store.audit actor .projectDelete (.project id) now)

variable {store store' : Store} {slug : Str} {settings : Settings} {actor : Actor} {now : Time}
  {id : Nat} {p : ProjectRow}

/-- Where a row after a creation comes from. -/
theorem mem_create (h : store.create slug settings actor now = .ok (id, store'))
    (hp : p ∈ store'.projects) : p ∈ store.projects ∨ p = ⟨id, slug, settings, now⟩ := by
  unfold create at h
  split at h
  · cases h
  · split at h
    · cases h
    · dsimp only at h
      split at h
      · cases h
        exact AutoTable.mem_insertNew.mp hp
      · cases h

/-- Where a row after an update comes from. -/
theorem mem_update {changed : Bool} (h : store.update id settings actor now = .ok (changed, store'))
    (hp : p ∈ store'.projects) : p ∈ store.projects ∨ p.settings = settings := by
  unfold update at h
  split at h
  · cases h
    exact .inl hp
  · split at h
    · cases h
      exact .inl hp
    · split at h
      · cases h
      · split at h
        · cases h
          obtain ⟨q, hq, heq⟩ := AutoTable.mem_update.mp hp
          split at heq
          · right
            rw [← heq]
          · left
            rwa [← heq]
        · cases h

/-- Where a row after a deletion comes from. -/
theorem mem_delete (hp : p ∈ (store.delete id actor now).2.projects) : p ∈ store.projects := by
  unfold delete at hp
  split at hp
  · exact hp
  · exact (AutoTable.mem_delete.mp hp).1

end Store

/-! ## Forms and arguments -/

/-- The values of the form that creates a project, as entered. -/
structure CreateForm where
  slug : Str
  name : Str
  publicHost : Str

/-- The fields of a new project, in the order of the source. -/
def CreateForm.parse (form : CreateForm) (base : BaseUrl) : Except Problem (Str × Settings) := do
  let slug ← parseSlug form.slug
  let name ← parseName form.name
  let host ← parseHost form.publicHost base
  return (slug, .new name host)

/-- The settings form's values, as entered; an unchecked box sends nothing. -/
structure SettingsForm where
  name : Str
  publicHost : Str
  screenshotsEnabled : Option Str
  featuresEnabled : Option Str
  requireEmail : Option Str
  plusOneEnabled : Option Str
  privacyNotice : Str
  securityContact : Str

/-- The fields of the settings form, in the order of the source. -/
def SettingsForm.parse (form : SettingsForm) (base : BaseUrl) : Except Problem Settings := do
  let name ← parseName form.name
  let publicHost ← parseHost form.publicHost base
  let privacyNotice ← parsePrivacyNotice form.privacyNotice
  let securityContact ← parseSecurityContact form.securityContact
  return {
    name, publicHost
    screenshotsEnabled := form.screenshotsEnabled.isSome
    featuresEnabled := form.featuresEnabled.isSome
    requireEmail := form.requireEmail.isSome
    plusOneEnabled := form.plusOneEnabled.isSome
    privacyNotice, securityContact }

/-- The arguments of `project create`; one that is not UTF-8 is `none`. -/
structure CreateArgs where
  slug : Option Str
  name : Option Str
  host : Option (Option Str)

/-- An argument as text; one that is not UTF-8 becomes NUL, which breaks every field's rule. -/
def utf8 (value : Option Str) : Str := value.getD [Char.ofNat 0]

/-- The arguments of `project create`, with the rules of the form. -/
def CreateArgs.parse (args : CreateArgs) (base : BaseUrl) : Except Problem (Str × Settings) := do
  let slug ← parseSlug (utf8 args.slug)
  let name ← parseName (utf8 args.name)
  let host ← args.host.elim (pure none) fun host => parseHost (utf8 host) base
  return (slug, .new name host)

variable {base : BaseUrl} {slug host : Str} {settings : Settings}

/-- Parsing, read as one condition per field. -/
theorem SettingsForm.parse_eq_ok {form : SettingsForm} {s : Settings} :
    form.parse base = .ok s ↔
      parseName form.name = .ok s.name ∧ parseHost form.publicHost base = .ok s.publicHost ∧
        parsePrivacyNotice form.privacyNotice = .ok s.privacyNotice ∧
        parseSecurityContact form.securityContact = .ok s.securityContact ∧
        form.screenshotsEnabled.isSome = s.screenshotsEnabled ∧ form.featuresEnabled.isSome =
          s.featuresEnabled ∧
        form.requireEmail.isSome = s.requireEmail ∧ form.plusOneEnabled.isSome =
          s.plusOneEnabled := by
  constructor
  · intro h
    obtain ⟨_, hname, h⟩ := bind_eq_ok.mp h
    obtain ⟨_, hhost, h⟩ := bind_eq_ok.mp h
    obtain ⟨_, hnotice, h⟩ := bind_eq_ok.mp h
    obtain ⟨_, hcontact, h⟩ := bind_eq_ok.mp h
    cases h
    exact ⟨hname, hhost, hnotice, hcontact, rfl, rfl, rfl, rfl⟩
  · intro h
    obtain ⟨hname, hhost, hnotice, hcontact, h1, h2, h3, h4⟩ := h
    obtain ⟨name, publicHost, screenshotsEnabled, featuresEnabled, requireEmail, plusOneEnabled,
        privacyNotice,
      securityContact⟩ := s
    cases h1
    cases h2
    cases h3
    cases h4
    exact bind_eq_ok.mpr ⟨_, hname, bind_eq_ok.mpr ⟨_, hhost, bind_eq_ok.mpr ⟨_, hnotice,
      bind_eq_ok.mpr ⟨_, hcontact, rfl⟩⟩⟩⟩

/-- A host that comes from a form is none of the main host's. -/
theorem CreateForm.host_of_parse {form : CreateForm} (h : form.parse base = .ok (slug, settings))
    (hhost : settings.publicHost = some host) : IsHost host ∧ host ≠ base.host.text := by
  obtain ⟨_, -, h⟩ := bind_eq_ok.mp h
  obtain ⟨_, -, h⟩ := bind_eq_ok.mp h
  obtain ⟨_, hparse, h⟩ := bind_eq_ok.mp h
  cases h
  cases hhost
  exact of_parseHost hparse

theorem SettingsForm.host_of_parse {form : SettingsForm} (h : form.parse base = .ok settings)
    (hhost : settings.publicHost = some host) : IsHost host ∧ host ≠ base.host.text := by
  obtain ⟨-, hparse, -⟩ := parse_eq_ok.mp h
  rw [hhost] at hparse
  exact of_parseHost hparse

theorem CreateArgs.host_of_parse {args : CreateArgs} (h : args.parse base = .ok (slug, settings))
    (hhost : settings.publicHost = some host) : IsHost host ∧ host ≠ base.host.text := by
  obtain ⟨_, -, h⟩ := bind_eq_ok.mp h
  obtain ⟨_, -, h⟩ := bind_eq_ok.mp h
  obtain ⟨_, hparse, h⟩ := bind_eq_ok.mp h
  cases h
  cases hhost
  cases hargs : args.host with
  | none =>
    rw [hargs] at hparse
    cases hparse
  | some arg =>
    rw [hargs] at hparse
    exact of_parseHost hparse

end Kohaku.Projects
