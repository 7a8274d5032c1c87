import Kohaku.Routing.Watch

/-!
# The published host map

The published map is always one loaded from a committed snapshot, and never an older one than
before. The invariant ties three things: the version the watcher saw last, the snapshot behind the
published map, and for each caller the snapshots it has read and the commits before its call.
-/

namespace Kohaku.Routing

open Projects

namespace Hosts

/-! ## Which snapshots were read and published -/

/-- The snapshots behind the map built last and behind the published one. -/
structure Source where
  loaded : Nat
  published : Nat

/-- A load remembers the newest snapshot, a publication publishes what was loaded. -/
def Source.next (g : Source) (e : Event) : Source :=
  match e.label with
  | .load _ true => { g with loaded := e.pre.newest }
  | .publish _ => { g with published := g.loaded }
  | _ => g

/-- The snapshots that were loaded and published last. -/
def source (h : List Event) : Source := h.foldl Source.next ⟨0, 0⟩

theorem source_snoc (h : List Event) (e : Event) : source (h ++ [e]) = (source h).next e := by
  rw [source, List.foldl_append]
  rfl

variable {dataVersion : Nat → Int} {base : BaseUrl} {s s' t : Hosts} {h : List Event} {e : Event}
  {g g' : Source} {c c' : Caller} {k n : Nat} {rows : List ProjectRow}

/-- Every call of `c` so far started when `n` was committed already. -/
def Calls (h : List Event) (c : Caller) (n : Nat) : Prop :=
  ∀ e ∈ h, e.label = .call c → e.pre.newest ≤ n

/-- The version, if there is one, is that of a snapshot up to `n`. -/
def VersionLe (dataVersion : Nat → Int) (version : Option Int) (n : Nat) : Prop :=
  ∀ v, version = some v → ∃ j ≤ n, v = dataVersion j

theorem VersionLe.mono {version : Option Int} (H : VersionLe dataVersion version k) (hle : k ≤ n) :
    VersionLe dataVersion version n := by
  intro v hv
  obtain ⟨j, hj, rfl⟩ := H v hv
  exact ⟨j, hj.trans hle, rfl⟩

theorem Calls.mono (H : Calls h c k) (hle : k ≤ n) : Calls h c n :=
  fun e he hl => (H e he hl).trans hle

theorem Calls.snoc (H : Calls h c n) (hl : e.label ≠ .call c) : Calls (h ++ [e]) c n := by
  intro e' he' hl'
  rcases List.mem_append.mp he' with he' | he'
  · exact H e' he' hl'
  · rw [List.mem_singleton.mp he'] at hl'
    exact absurd hl' hl

/-- What is known of a caller from where it is. -/
def PhaseOk (dataVersion : Nat → Int) (base : BaseUrl) (h : List Event) (s : Hosts) (c : Caller) :
    Prop :=
  match s.phase c with
  | .idle | .waiting | .locked => True
  | .reading version => VersionLe dataVersion version s.newest
  | .loaded version map => VersionLe dataVersion version (source h).loaded ∧
      Calls h c (source h).loaded ∧
      ∃ rows, s.snapshot (source h).loaded = some rows ∧ map = Routing.load rows base
  | .done (.ok version) => VersionLe dataVersion version (source h).published ∧
      Calls h c (source h).published
  | .returned (.ok version) => VersionLe dataVersion version (source h).published
  | .done (.error _) | .returned (.error _) => True

/-- The invariant that ties the version seen, the snapshots and the published map. -/
structure Inv (dataVersion : Nat → Int) (base : BaseUrl) (h : List Event) (s : Hosts) : Prop where
  map : ∃ rows, s.snapshot (source h).published = some rows ∧ s.map = Routing.load rows base
  published_le : (source h).published ≤ (source h).loaded
  loaded_le : (source h).loaded ≤ s.newest
  calls : ∀ c, Calls h c s.newest
  lock : ∀ c, (s.phase c).holds = true → s.lock = some c
  seen : VersionLe dataVersion s.seen (source h).published
  phase : ∀ c, PhaseOk dataVersion base h s c

/-! ## Steps keep the invariant -/

theorem snapshot_newest : s.snapshot s.newest = some s.current := by
  rw [snapshot, newest, List.getElem?_concat_length]

theorem snapshot_commit (h : s.snapshot k = some rows) {new : List ProjectRow} :
    { s with past := s.past ++ [s.current], current := new }.snapshot k = some rows := by
  unfold snapshot at h ⊢
  obtain ⟨hk, -⟩ := List.getElem?_eq_some_iff.mp h
  rwa [List.getElem?_append_left hk]

/-- A caller that does not move keeps what is known of it. -/
theorem PhaseOk.frame {h' : List Event} (H : PhaseOk dataVersion base h s c)
    (hphase : s'.phase c = s.phase c) (hpub : (source h).published ≤ (source h').published)
    (hload : (s.phase c).holds = true → (source h').loaded = (source h).loaded)
    (hsnap : ∀ {k rows}, s.snapshot k = some rows → s'.snapshot k = some rows)
    (hnew : s.newest ≤ s'.newest) (hcalls : ∀ {n}, Calls h c n → Calls h' c n) :
    PhaseOk dataVersion base h' s' c := by
  unfold PhaseOk at H ⊢
  rw [hphase]
  cases hp : s.phase c with
  | idle | waiting | locked => trivial
  | reading version =>
    rw [hp] at H
    exact VersionLe.mono H hnew
  | loaded version map =>
    rw [hp] at H hload
    obtain ⟨hversion, hcall, rows, hrows, hmap⟩ := H
    rw [hload rfl]
    exact ⟨hversion, hcalls hcall, rows, hsnap hrows, hmap⟩
  | done result =>
    rw [hp] at H
    cases result with
    | error => trivial
    | ok version => exact ⟨VersionLe.mono H.1 hpub, hcalls (H.2.mono hpub)⟩
  | returned result =>
    rw [hp] at H
    cases result with
    | error => trivial
    | ok version => exact VersionLe.mono H hpub

namespace Inv

variable {phase : Phase}

theorem lock_setPhase (I : Inv dataVersion base h s) (hc : phase.holds = true → s.lock = some c) :
    ∀ c', (Function.update s.phase c phase c').holds = true → s.lock = some c' := by
  intro c' hholds
  by_cases heq : c' = c
  · subst heq
    rw [Function.update_self] at hholds
    exact hc hholds
  · rw [Function.update_of_ne heq] at hholds
    exact I.lock c' hholds

/-- Only the caller that locked the connection is in a phase that holds it. -/
theorem not_holds (I : Inv dataVersion base h s) (hlock : s.lock ≠ some c') :
    (s.phase c').holds = false := by
  by_contra hholds
  exact hlock (I.lock c' (by simpa using hholds))

/-- A step of one caller on the database as it is. -/
theorem move (I : Inv dataVersion base h s) (hpre : e.pre = s) (hpast : s'.past = s.past)
    (hcur : s'.current = s.current) (hphase : s'.phase = Function.update s.phase c phase)
    (hcall : ∀ c', e.label = .call c' → c' = c)
    (hmap : ∃ rows, s'.snapshot (source (h ++ [e])).published = some rows ∧
      s'.map = Routing.load rows base)
    (hpub : (source h).published ≤ (source (h ++ [e])).published)
    (hple : (source (h ++ [e])).published ≤ (source (h ++ [e])).loaded)
    (hlle : (source (h ++ [e])).loaded ≤ s.newest)
    (hload : (source (h ++ [e])).loaded = (source h).loaded ∨ s.lock = some c)
    (hlock : ∀ c', (Function.update s.phase c phase c').holds = true → s'.lock = some c')
    (hseen : VersionLe dataVersion s'.seen (source (h ++ [e])).published)
    (hok : PhaseOk dataVersion base (h ++ [e]) s' c) : Inv dataVersion base (h ++ [e]) s' := by
  have hnewest : s'.newest = s.newest := by rw [newest, newest, hpast]
  have hsnap : ∀ {k rows}, s.snapshot k = some rows → s'.snapshot k = some rows := by
    intro k rows hk
    rwa [snapshot, hpast, hcur]
  refine ⟨hmap, hple, hnewest ▸ hlle, ?_, ?_, hseen, ?_⟩
  · intro c' e' he' hl
    rw [hnewest]
    rcases List.mem_append.mp he' with he' | he'
    · exact I.calls c' e' he' hl
    · rw [List.mem_singleton.mp he', hpre]
  · rw [hphase]
    exact hlock
  · intro c'
    by_cases heq : c' = c
    · subst heq
      exact hok
    · refine (I.phase c').frame ?_ hpub ?_ hsnap hnewest.ge ?_
      · rw [hphase, Function.update_of_ne heq]
      · intro hholds
        rcases hload with hload | hlock
        · exact hload
        · rw [I.lock c' hholds] at hlock
          exact absurd (Option.some.inj hlock) heq
      · exact fun H => H.snoc fun hl => heq (hcall c' hl)

/-- The same when nothing is loaded or published. -/
theorem move_quiet (I : Inv dataVersion base h s) (hpre : e.pre = s) (hpast : s'.past = s.past)
    (hcur : s'.current = s.current) (hphase : s'.phase = Function.update s.phase c phase)
    (hcall : ∀ c', e.label = .call c' → c' = c) (hsrc : source (h ++ [e]) = source h)
    (hmap : s'.map = s.map)
    (hlock : ∀ c', (Function.update s.phase c phase c').holds = true → s'.lock = some c')
    (hseen : VersionLe dataVersion s'.seen (source h).published)
    (hok : PhaseOk dataVersion base (h ++ [e]) s' c) : Inv dataVersion base (h ++ [e]) s' := by
  refine I.move hpre hpast hcur hphase hcall ?_ (by rw [hsrc]) ?_ ?_
    (.inl (by rw [hsrc])) hlock ?_ hok
  · obtain ⟨rows, hrows, hm⟩ := I.map
    rw [hsrc, hmap, snapshot, hpast, hcur]
    exact ⟨rows, hrows, hm⟩
  · rw [hsrc]
    exact I.published_le
  · rw [hsrc]
    exact I.loaded_le
  · rw [hsrc]
    exact hseen

theorem commit (I : Inv dataVersion base h s)
    (hs : s.step dataVersion base (.commit rows) = some s') :
    Inv dataVersion base (h ++ [⟨s, .commit rows, s'⟩]) s' := by
  have hsrc : source (h ++ [⟨s, .commit rows, s'⟩]) = source h := source_snoc _ _
  have hcalls : ∀ {c n}, Calls h c n → Calls (h ++ [⟨s, .commit rows, s'⟩]) c n :=
    fun H => H.snoc Act.noConfusion
  have hsnap : ∀ {k rows}, s.snapshot k = some rows → s'.snapshot k = some rows := by
    cases hs
    exact fun hk => snapshot_commit hk
  have hnewest : s.newest ≤ s'.newest := by
    cases hs
    rw [newest, newest, List.length_append]
    exact Nat.le_add_right _ _
  constructor
  · obtain ⟨rows, hrows, hm⟩ := I.map
    refine ⟨rows, hsrc ▸ hsnap hrows, ?_⟩
    cases hs
    exact hm
  · rw [hsrc]
    exact I.published_le
  · rw [hsrc]
    exact I.loaded_le.trans hnewest
  · intro c
    exact hcalls ((I.calls c).mono hnewest)
  · cases hs
    exact I.lock
  · rw [hsrc]
    cases hs
    exact I.seen
  · intro c
    refine (I.phase c).frame ?_ (by rw [hsrc]) ?_ hsnap hnewest hcalls
    · cases hs
      rfl
    · rw [hsrc]
      exact fun _ => rfl

theorem call (I : Inv dataVersion base h s) (hs : s.step dataVersion base (.call c) = some s') :
    Inv dataVersion base (h ++ [⟨s, .call c, s'⟩]) s' := by
  simp only [step] at hs
  split at hs
  · cases hs
    refine I.move_quiet (c := c) rfl rfl rfl rfl ?_ (source_snoc _ _) rfl ?_ I.seen ?_
    · intro c' hl
      exact (Act.call.inj hl).symm
    · exact I.lock_setPhase (by simp [Phase.holds])
    · simp [PhaseOk, setPhase]
  · cases hs

theorem acquire (I : Inv dataVersion base h s)
    (hs : s.step dataVersion base (.acquire c) = some s') :
    Inv dataVersion base (h ++ [⟨s, .acquire c, s'⟩]) s' := by
  simp only [step] at hs
  split at hs
  · rename_i hphase hfree
    cases hs
    refine I.move_quiet (c := c) rfl rfl rfl rfl (by simp) (source_snoc _ _) rfl ?_ I.seen ?_
    · intro c' hholds
      by_cases heq : c' = c
      · rw [heq]
      · rw [Function.update_of_ne heq, I.not_holds (by simp [hfree])] at hholds
        cases hholds
    · cases c with
      | watcher => simp [PhaseOk, setPhase]
      | refresh n => simp [PhaseOk, setPhase, VersionLe]
  · cases hs

theorem readVersion (hinj : Function.Injective dataVersion)
    (I : Inv dataVersion base h s) {ok : Bool}
    (hs : s.step dataVersion base (.readVersion ok) = some s') :
    Inv dataVersion base (h ++ [⟨s, .readVersion ok, s'⟩]) s' := by
  simp only [step] at hs
  split at hs
  · rename_i hphase
    have hlock : s.lock = some .watcher := I.lock _ (by rw [hphase]; rfl)
    have hquiet : ∀ {phase}, s' = s.setPhase .watcher phase →
        PhaseOk dataVersion base (h ++ [⟨s, .readVersion ok, s'⟩]) s' .watcher →
        Inv dataVersion base (h ++ [⟨s, .readVersion ok, s'⟩]) s' := by
      rintro phase rfl hok
      exact I.move_quiet (c := .watcher) rfl rfl rfl rfl (by simp) (source_snoc _ _) rfl
        (I.lock_setPhase fun _ => hlock) I.seen hok
    split at hs
    · refine hquiet (Option.some.inj hs).symm ?_
      cases hs
      simp [PhaseOk, setPhase]
    · split at hs
      · refine hquiet (Option.some.inj hs).symm ?_
        cases hs
        simp only [PhaseOk, setPhase, Function.update_self]
        intro v hv
        exact ⟨s.newest, le_rfl, (Option.some.inj hv).symm⟩
      · rename_i hseen
        -- nothing was committed since the version that was seen, so the map is up to date
        have hseen : s.seen = some (dataVersion s.newest) := by simpa using hseen
        obtain ⟨j, hj, hv⟩ := I.seen _ hseen
        have hle : s.newest ≤ (source h).published := by rwa [hinj hv]
        refine hquiet (Option.some.inj hs).symm ?_
        cases hs
        simp only [PhaseOk, setPhase, Function.update_self, source_snoc, Source.next]
        refine ⟨hseen ▸ I.seen, ?_⟩
        exact ((I.calls .watcher).mono hle).snoc (by simp)
  · cases hs

theorem load (I : Inv dataVersion base h s) {ok : Bool}
    (hs : s.step dataVersion base (.load c ok) = some s') :
    Inv dataVersion base (h ++ [⟨s, .load c ok, s'⟩]) s' := by
  simp only [step] at hs
  split at hs
  · rename_i version hphase
    have hlock : s.lock = some c := I.lock _ (by rw [hphase]; rfl)
    cases ok with
    | false =>
      cases hs
      refine I.move_quiet (c := c) rfl rfl rfl rfl (by simp) (source_snoc _ _) rfl
        (I.lock_setPhase fun _ => hlock) I.seen ?_
      simp [PhaseOk, setPhase]
    | true =>
      cases hs
      have hsrc := source_snoc h ⟨s, .load c true,
        s.setPhase c (.loaded version (Routing.load s.current base))⟩
      rw [Source.next] at hsrc
      have hreading : VersionLe dataVersion version s.newest := by
        have := I.phase c
        rwa [PhaseOk, hphase] at this
      refine I.move (c := c) rfl rfl rfl rfl (by simp) ?_ ?_ ?_ ?_ (.inr hlock)
        (I.lock_setPhase fun _ => hlock) ?_ ?_
      · rw [hsrc]
        exact I.map
      · rw [hsrc]
      · rw [hsrc]
        exact I.published_le.trans I.loaded_le
      · rw [hsrc]
      · rw [hsrc]
        exact I.seen
      · simp only [PhaseOk, setPhase, Function.update_self]
        rw [setPhase] at hsrc
        rw [hsrc]
        exact ⟨hreading, (I.calls c).snoc (by simp), s.current, snapshot_newest, rfl⟩
  · cases hs

theorem publish (I : Inv dataVersion base h s)
    (hs : s.step dataVersion base (.publish c) = some s') :
    Inv dataVersion base (h ++ [⟨s, .publish c, s'⟩]) s' := by
  simp only [step] at hs
  split at hs
  · rename_i version map hphase
    cases hs
    have hlock : s.lock = some c := I.lock _ (by rw [hphase]; rfl)
    have hok := I.phase c
    rw [PhaseOk, hphase] at hok
    obtain ⟨hversion, hcalls, hmap⟩ := hok
    have hsrc := source_snoc h ⟨s, .publish c, { s.setPhase c (.done (.ok version)) with map }⟩
    rw [Source.next] at hsrc
    refine I.move (c := c) rfl rfl rfl rfl (by simp) ?_ ?_ ?_ ?_ (.inr hlock)
      (I.lock_setPhase fun _ => hlock) ?_ ?_
    · rw [hsrc]
      exact hmap
    · rw [hsrc]
      exact I.published_le
    · rw [hsrc]
    · rw [hsrc]
      exact I.loaded_le
    · rw [hsrc]
      exact I.seen.mono I.published_le
    · simp only [PhaseOk, setPhase, Function.update_self]
      rw [setPhase] at hsrc
      rw [hsrc]
      exact ⟨hversion, hcalls.snoc (by simp)⟩
  · cases hs

theorem release (I : Inv dataVersion base h s)
    (hs : s.step dataVersion base (.release c) = some s') :
    Inv dataVersion base (h ++ [⟨s, .release c, s'⟩]) s' := by
  simp only [step] at hs
  split at hs
  · rename_i result hphase
    cases hs
    have hlock : s.lock = some c := I.lock _ (by rw [hphase]; rfl)
    have hok := I.phase c
    rw [PhaseOk, hphase] at hok
    refine I.move_quiet (c := c) rfl rfl rfl rfl (by simp) (source_snoc _ _) rfl ?_ I.seen ?_
    · intro c' hholds
      by_cases heq : c' = c
      · rw [heq, Function.update_self] at hholds
        cases hholds
      · rw [Function.update_of_ne heq, I.not_holds (by simp [hlock, Ne.symm heq])] at hholds
        cases hholds
    · cases result with
      | error => simp [PhaseOk, setPhase]
      | ok version =>
        simp only [PhaseOk, setPhase, Function.update_self, source_snoc, Source.next]
        exact hok.1
  · cases hs

theorem resume (I : Inv dataVersion base h s) (hs : s.step dataVersion base (.resume c) = some s') :
    Inv dataVersion base (h ++ [⟨s, .resume c, s'⟩]) s' := by
  simp only [step] at hs
  split at hs
  · rename_i result hphase
    cases hs
    have hok := I.phase c
    rw [PhaseOk, hphase] at hok
    refine I.move_quiet (c := c) rfl rfl rfl rfl (by simp) (source_snoc _ _) rfl
      (I.lock_setPhase (by simp [Phase.holds])) ?_ ?_
    · split
      · exact hok
      · exact I.seen
    · simp [PhaseOk, setPhase]
  · cases hs

/-- Every step keeps the invariant. -/
theorem step (hinj : Function.Injective dataVersion) (I : Inv dataVersion base h s) {a : Act}
    (hs : s.step dataVersion base a = some s') : Inv dataVersion base (h ++ [⟨s, a, s'⟩]) s' := by
  cases a with
  | commit => exact I.commit hs
  | call => exact I.call hs
  | acquire => exact I.acquire hs
  | readVersion => exact I.readVersion hinj hs
  | load => exact I.load hs
  | publish => exact I.publish hs
  | release => exact I.release hs
  | resume => exact I.resume hs

theorem start (base : BaseUrl) (rows : List ProjectRow) :
    Inv dataVersion base [] (Hosts.start base rows) where
  map := ⟨rows, rfl, rfl⟩
  published_le := le_rfl
  loaded_le := le_rfl
  calls := by simp [Calls]
  lock := by simp [Hosts.start, Phase.holds]
  seen := by simp [Hosts.start, VersionLe]
  phase := by simp [Hosts.start, PhaseOk]

theorem run (hinj : Function.Injective dataVersion)
    (H : Lts.Exec (Hosts.step dataVersion base) (Hosts.start base rows) h t) :
    Inv dataVersion base h t :=
  H.rec_snoc (Inv dataVersion base) (start base rows) fun _ I hs => I.step hinj hs

end Inv

/-- What is published comes from a snapshot at least as new as before. -/
theorem published_le_append (hinj : Function.Injective dataVersion) {h₁ h₂ : List Event}
    (H₁ : Lts.Exec (step dataVersion base) (start base rows) h₁ s)
    (H₂ : Lts.Exec (step dataVersion base) s h₂ t) :
    (source h₁).published ≤ (source (h₁ ++ h₂)).published := by
  refine H₂.rec_snoc (fun h₂ _ => (source h₁).published ≤ (source (h₁ ++ h₂)).published) ?_ ?_
  · rw [List.append_nil]
  · intro h₂ m a u H₂ hle _
    have I := Inv.run hinj (H₁.append H₂)
    rw [← List.append_assoc, source_snoc, Source.next]
    split
    · exact hle
    · exact hle.trans I.published_le
    · exact hle

/-- **The host map never loses or reverts a project change.** In every interleaving of commits,
calls of `refresh`, ticks of `watch` and failures: each published map is loaded from a committed
snapshot, these snapshots never get older, and once a tick or a refresh has succeeded the published
map is at least as new as the database was when it started. -/
theorem host_map_follows {dataVersion : Nat → Int} (hinj : Function.Injective dataVersion)
    {base : BaseUrl} {rows : List ProjectRow} {h : List Event} {t : Hosts}
    (H : Lts.Exec (step dataVersion base) (start base rows) h t) :
    ∃ p : List Event → Nat,
      (∀ h₁ h₂ m, h = h₁ ++ h₂ → Lts.Exec (step dataVersion base) (start base rows) h₁ m →
        ∃ rows, m.snapshot (p h₁) = some rows ∧ m.map = load rows base) ∧
      (∀ h₁ h₂ h₃, h = h₁ ++ h₂ ++ h₃ → p h₁ ≤ p (h₁ ++ h₂)) ∧
      ∀ h₁ e₁ h₂ e₂ h₃ c, h = h₁ ++ e₁ :: h₂ ++ e₂ :: h₃ → e₁.label = .call c → succeeds e₂ c →
        e₁.pre.newest ≤ p (h₁ ++ e₁ :: h₂ ++ [e₂]) := by
  refine ⟨fun h => (source h).published, ?_, ?_, ?_⟩
  · rintro h₁ h₂ m - H₁
    exact (Inv.run hinj H₁).map
  · rintro h₁ h₂ h₃ rfl
    obtain ⟨_, H₁₂, -⟩ := H.of_append
    obtain ⟨_, H₁, H₂⟩ := H₁₂.of_append
    exact published_le_append hinj H₁ H₂
  · rintro h₁ e₁ h₂ e₂ h₃ c rfl hcall ⟨hlabel, version, hphase⟩
    obtain ⟨H₁, -, -⟩ := H.split
    have hok := (Inv.run hinj H₁).phase c
    rw [PhaseOk, hphase] at hok
    have hsrc : source (h₁ ++ e₁ :: h₂ ++ [e₂]) = source (h₁ ++ e₁ :: h₂) := by
      rw [source_snoc, Source.next, hlabel]
    dsimp only
    rw [hsrc]
    exact hok.2 e₁ (by simp) hcall

/-! ## A commit between the version and the rows, and a failed load -/

namespace LateCommit

theorem isDnsName_site : isDnsName "kohaku.example.org".toList = true := by decide

/-- The server's base URL. -/
def site : BaseUrl := ⟨true, ⟨"kohaku.example.org".toList, isDnsName_site⟩, none⟩

/-- A project with a custom domain. -/
def project (id : Nat) (host : String) : ProjectRow where
  id := id
  slug := "demo".toList
  settings := .new "Demo".toList (some host.toList)
  createdAt := 0

/-- Two changes, of which a failing refresh misses the second and the watcher publishes it. -/
def acts : List Act :=
  [.call .watcher, .acquire .watcher, .readVersion true, .commit [project 1 "bugs.example.net"],
    .load .watcher true, .publish .watcher, .release .watcher, .resume .watcher,
    .commit [project 1 "bugs.example.org"],
    .call (.refresh 0), .call .watcher, .acquire (.refresh 0), .load (.refresh 0) false,
    .release (.refresh 0), .acquire .watcher, .readVersion true, .load .watcher true,
    .publish .watcher, .release .watcher, .resume .watcher]

/-- The run of these acts. -/
def history : List Event := Lts.history (step Int.ofNat site) (start site []) acts

theorem run : Lts.Exec (step Int.ofNat site) (start site []) history
    (Lts.last (start site []) history) :=
  .of_history (by decide)

end LateCommit

open LateCommit in
theorem host_map_follows_late_commit :
    (Lts.last (start site []) history).map.get "bugs.example.org".toList = some (.project 1) ∧
    (Lts.last (start site []) history).seen = some 2 ∧
    ∃ k rows, (Lts.last (start site []) history).snapshot k = some rows ∧
      (Lts.last (start site []) history).map = load rows site := by
  obtain ⟨p, hmap, -, -⟩ := host_map_follows (fun _ _ => Int.ofNat.inj) run
  exact ⟨by decide, by decide, p history, hmap history [] _ (by simp) run⟩

end Hosts

end Kohaku.Routing
