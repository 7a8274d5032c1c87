import Kohaku.Lts.Exec
import Kohaku.Routing.Agree

/-!
# The main host over server starts

The rule that no project owns the main host is checked when a form or an argument is parsed: a form
against the base URL of the running server, an argument against the one that the command itself was
given. The host map is built from the rows. An instance lives through any number of starts, each
with its own base URL, and restored backups. The main host is routed to the main router as long as
no start finds its host among the projects and no command beside the server gives that host to one.
-/

namespace Kohaku.Routing

open Projects Sql

/-- The data of an installation and the base URL it was started with last. -/
structure Instance where
  store : Store
  base : BaseUrl
  running : Bool

namespace Instance

/-- Nothing stored, not started yet; the base URL is the configured one. -/
def new (base : BaseUrl) : Instance := ⟨⟨.empty, []⟩, base, false⟩

/-- What happens to an instance and its projects. -/
inductive Act
  /-- The server is started, after the running one was stopped. -/
  | start (base : BaseUrl)
  /-- A backup replaces the database while no server runs. -/
  | restore (backup : Store)
  | create (form : CreateForm) (actor : Actor) (now : Time)
  /-- `project create` on the command line, beside the server or without one. It reads
  `KOHAKU_BASE_URL` from its own environment. -/
  | createCli (base : BaseUrl) (args : CreateArgs) (now : Time)
  | save (id : Nat) (form : SettingsForm) (actor : Actor) (now : Time)
  | delete (id : Nat) (actor : Actor) (now : Time)

/-- The store after a creation; a refused one leaves it. -/
def created (s : Instance) (parsed : Except Problem (Str × Settings)) (actor : Actor) (now : Time) :
    Store :=
  match parsed with
  | .error _ => s.store
  | .ok (slug, settings) =>
    match s.store.create slug settings actor now with
    | .error _ => s.store
    | .ok (_, store) => store

/-- The store after a form was saved. -/
def saved (s : Instance) (id : Nat) (form : SettingsForm) (actor : Actor) (now : Time) : Store :=
  match form.parse s.base with
  | .error _ => s.store
  | .ok settings =>
    match s.store.update id settings actor now with
    | .error _ => s.store
    | .ok (_, store) => store

/-- One change; the admin pages answer only while the server runs. -/
def step (s : Instance) : Act → Option Instance
  | .start base => some { s with base, running := true }
  | .restore backup => some { s with store := backup, running := false }
  | .create form actor now =>
    if s.running then some { s with store := s.created (form.parse s.base) actor now } else none
  | .createCli base args now => some { s with store := s.created (args.parse base) .cli now }
  | .save id form actor now =>
    if s.running then some { s with store := s.saved id form actor now } else none
  | .delete id actor now =>
    if s.running then some { s with store := (s.store.delete id actor now).2 } else none

/-- An act with the instance before and after it. -/
abbrev Event := Lts.Step Instance Act

/-- The map a server of this instance has loaded. -/
def hostMap (s : Instance) : HostMap := load s.store.projects.rows s.base

/-- No project has the host. -/
def Free (store : Store) (host : Str) : Prop := ∀ p ∈ store.projects, p.host ≠ some host

instance (store : Store) (host : Str) : Decidable (Free store host) :=
  inferInstanceAs (Decidable (∀ p ∈ store.projects.rows, p.host ≠ some host))

/-- The custom domain of the project that a creation adds, if it adds one. -/
def createdHost (s : Instance) (parsed : Except Problem (Str × Settings)) (actor : Actor)
    (now : Time) : Option Str :=
  match parsed with
  | .error _ => none
  | .ok (slug, settings) =>
    match s.store.create slug settings actor now with
    | .error _ => none
    | .ok _ => settings.publicHost

/-- A start does not find its host among the projects, and a command beside the running server does
not give the server's host to the project it creates. -/
def SparesMain (e : Event) : Prop :=
  match e.label with
  | .start base => Free e.pre.store base.host.text
  | .createCli base args now =>
    e.pre.running = true → e.pre.createdHost (args.parse base) .cli now ≠ some e.pre.base.host.text
  | _ => True

instance (e : Event) : Decidable (SparesMain e) := by
  unfold SparesMain
  split <;> infer_instance

variable {s s' t : Instance} {h : List Event} {actor : Actor} {now : Time} {id : Nat}

/-! ## Changes keep the main host free -/

theorem free_created {parsed : Except Problem (Str × Settings)}
    (hfree : Free s.store s.base.host.text)
    (hhost : s.createdHost parsed actor now ≠ some s.base.host.text) :
    Free (s.created parsed actor now) s.base.host.text := by
  unfold created
  unfold createdHost at hhost
  split
  · exact hfree
  · rename_i slug settings
    dsimp only at hhost
    cases hcreate : s.store.create slug settings actor now with
    | error problem => exact hfree
    | ok result =>
      obtain ⟨id, store⟩ := result
      rw [hcreate] at hhost
      intro p hp
      rcases Store.mem_create hcreate hp with hp | rfl
      · exact hfree p hp
      · exact hhost

/-- A form was checked against the server's own host. -/
theorem createdHost_ne {form : CreateForm} :
    s.createdHost (form.parse s.base) actor now ≠ some s.base.host.text := by
  intro hhost
  unfold createdHost at hhost
  split at hhost
  · cases hhost
  · rename_i slug settings hparse
    split at hhost
    · cases hhost
    · exact (CreateForm.host_of_parse hparse hhost).2 rfl

theorem free_saved {form : SettingsForm} (hfree : Free s.store s.base.host.text) :
    Free (s.saved id form actor now) s.base.host.text := by
  unfold saved
  split
  · exact hfree
  · rename_i settings hparse
    split
    · exact hfree
    · rename_i hupdate
      intro p hp hhost
      rcases Store.mem_update hupdate hp with hp | rfl
      · exact hfree p hp hhost
      · exact (SettingsForm.host_of_parse hparse hhost).2 rfl

/-- While the server runs no project gets its host. -/
theorem free_of_step {a : Act} (hs : s.step a = some s') (hok : SparesMain ⟨s, a, s'⟩)
    (hfree : s.running = true → Free s.store s.base.host.text) :
    s'.running = true → Free s'.store s'.base.host.text := by
  intro hrun
  cases a with
  | start base =>
    cases hs
    exact hok
  | restore backup =>
    cases hs
    cases hrun
  | createCli base args now =>
    cases hs
    exact free_created (hfree hrun) (hok hrun)
  | create form actor now =>
    obtain ⟨hrun, hs⟩ := Option.ite_none_right_eq_some.mp hs
    cases hs
    exact free_created (hfree hrun) createdHost_ne
  | save id form actor now =>
    obtain ⟨hrun, hs⟩ := Option.ite_none_right_eq_some.mp hs
    cases hs
    exact free_saved (hfree hrun)
  | delete id actor now =>
    obtain ⟨hrun, hs⟩ := Option.ite_none_right_eq_some.mp hs
    cases hs
    exact fun p hp => hfree hrun p (Store.mem_delete hp)

theorem free_of_run {base : BaseUrl} (H : Lts.Exec step (new base) h t)
    (hok : ∀ e ∈ h, SparesMain e) : t.running = true → Free t.store t.base.host.text := by
  refine H.stays (fun t => t.running = true → Free t.store t.base.host.text) (by simp [new]) ?_
  rintro h₁ e h₂ rfl - hs hfree
  exact free_of_step hs (hok e (by simp)) hfree

/-- A main host that no project has is mapped to the main router. -/
theorem get_hostMap (hfree : Free s.store s.base.host.text) :
    s.hostMap.get s.base.host.text = some .main := by
  rcases get_load s.store.projects.rows s.base s.base.host.text with ⟨p, hp, hhost, -⟩ | ⟨-, hget⟩
  · exact absurd hhost (hfree p hp)
  · rw [hostMap, hget, if_pos rfl]

/-- **The main host is routed to the main router**, in every run in which no start finds its host
among the projects and no command beside a server gives the server's host to one: the map has it, a
request for it is handled by the main host, and the TLS ask refuses it. -/
theorem main_host_routed {base : BaseUrl} {h : List Event} {t : Instance}
    (H : Lts.Exec step (new base) h t) (hok : ∀ e ∈ h, SparesMain e) (hrun : t.running = true) :
    t.hostMap.get t.base.host.text = some .main ∧
    (∀ request, request.uri.path ∉ internalPaths →
      requestHost request.headers = some t.base.host.text →
      dispatch t.hostMap t.base request =
        if adminIsolationAllows request.method request.uri.path request.headers then
          .main t.base.origin
        else .isolated) ∧
    ∀ query domain, singleDomain query = some domain → normalize domain = t.base.host.text →
      tlsAsk t.hostMap (some query) = false := by
  have hget := get_hostMap (free_of_run H hok hrun)
  refine ⟨hget, ?_, ?_⟩
  · intro request hpath hhost
    rw [dispatch_of_host hpath hhost, hget]
  · intro query domain hdomain hmain
    rw [Bool.eq_false_iff, ne_eq, tlsAsk_eq_true hdomain, hmain, hget]
    rintro ⟨id, heq⟩
    cases heq

/-! ## Two base URLs -/

namespace Moved

/-- The base URL of a host. -/
def site (host : String) (h : isDnsName host.toList = true := by decide) : BaseUrl :=
  ⟨true, ⟨host.toList, h⟩, none⟩

/-- The base URL before the move. -/
def old : BaseUrl := site "old.example.org"

/-- A project with the domain that becomes the main host. -/
def form : CreateForm := ⟨"demo".toList, "Demo".toList, "bugs.example.net".toList⟩

/-- The instance is started, gets a project, and is started again with another base URL. -/
def history (base : BaseUrl) : List Event :=
  Lts.history step (new old) [.start old, .create form (.user 1 .admin) 5, .start base]

theorem run (base : BaseUrl) :
    Lts.Exec step (new old) (history base) (Lts.last (new old) (history base)) :=
  .of_history rfl

/-- The same project, from the command line. -/
def args : CreateArgs :=
  ⟨some "demo".toList, some "Demo".toList, some (some "bugs.example.net".toList)⟩

/-- A project is created on the command line under one base URL, beside a server of another. -/
def beside (base server : BaseUrl) : List Event :=
  Lts.history step (new server) [.start server, .createCli base args 5]

theorem run_beside (base server : BaseUrl) :
    Lts.Exec step (new server) (beside base server) (Lts.last (new server) (beside base server)) :=
  .of_history rfl

/-- The main host of the running server belongs to project 1, for requests and for the TLS ask. -/
def Taken (t : Instance) : Prop :=
  t.running = true ∧ t.hostMap.get t.base.host.text = some (.project 1) ∧
    (∃ request : Request, request.uri.path ∉ internalPaths ∧
      requestHost request.headers = some t.base.host.text ∧
      dispatch t.hostMap t.base request = .project 1 "https://bugs.example.net".toList) ∧
    tlsAsk t.hostMap (some "domain=bugs.example.net".toList) = true

/-- `GET /` for the custom domain. -/
def request : Request :=
  ⟨.get, ⟨"/".toList, none, List.all_eq_true.mp (by decide)⟩,
    [("host".toList, asBytes "bugs.example.net".toList)]⟩

end Moved

open Moved in
theorem main_host_routed_moved :
    ((Lts.last (new old) (history (site "new.example.org"))).hostMap.get "bugs.example.net".toList =
        some (.project 1) ∧
      (Lts.last (new old) (history (site "new.example.org"))).hostMap.get "new.example.org".toList =
        some .main) ∧
    (Lts.last (new old) (beside (site "new.example.org") old)).hostMap.get
      "old.example.org".toList = some .main := by
  refine ⟨⟨by decide, ?_⟩, ?_⟩
  · exact (main_host_routed (run (site "new.example.org")) (by decide)
      (by decide)).1
  · exact (main_host_routed (run_beside (site "new.example.org") old) (by decide)
      (by decide)).1

open Moved in
/-- An instance that is moved to the custom domain of one of its projects, and a server whose host
is given to a project by a command that runs under another base URL: the main host belongs to the
project. -/
theorem moved_to_project_host :
    (∃ h t, Lts.Exec step (new old) h t ∧ Taken t) ∧
      ∃ server h t, Lts.Exec step (new server) h t ∧ Taken t := by
  refine ⟨⟨history (site "bugs.example.net"), _, run _, ?_⟩,
    ⟨site "bugs.example.net", beside old (site "bugs.example.net"), _, run_beside _ _, ?_⟩⟩
  · exact ⟨by decide +kernel, by decide +kernel, ⟨request, by decide +kernel⟩, by decide +kernel⟩
  · exact ⟨by decide +kernel, by decide +kernel, ⟨request, by decide +kernel⟩, by decide +kernel⟩

end Instance

end Kohaku.Routing
