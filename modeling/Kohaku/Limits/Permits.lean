import Kohaku.Basic
import Kohaku.Lts.Exec
import Kohaku.Pool.Ledger

/-!
# Concurrency bounds

`limits::permits`: one semaphore for public writes, one for password hashing and a reserved one for
browsers with a device cookie of the account. A call is modelled by how far it has come. A semaphore
may set a permit aside for a waiting call at any time and in any order; the call sees it when its
`select!` is polled next, and whatever was set aside is returned when the wait ends some other way.
Nobody but a known device ever has the reserved permit (`password_hashing_bounded`), so strangers
cannot keep a known device waiting (`known_device_finds_permit`).
-/

namespace Kohaku.Limits

/-- A named concurrency bound; a full one answers 503. -/
inductive Bound
  | publicWrites
  /-- argon2id computations. -/
  | hashing
  deriving DecidableEq, Repr

/-- `Bound::ALL`. -/
def Bound.all : List Bound := [.publicWrites, .hashing]

/-- `Bound::name`. -/
def Bound.name : Bound → Str
  | .publicWrites => "public_writes".toList
  | .hashing => "hashing".toList

namespace Permits

/-- Database writes for unauthenticated requests running at once. -/
def publicWrites : Nat := 8

/-- The semaphores. -/
inductive Sem
  | publicWrites
  /-- One argon2id permit for everyone. -/
  | hashing
  /-- One more, only for logins carrying a valid device cookie for their account. -/
  | hashingReserved
  deriving DecidableEq, Repr

/-- `Permits::default`. -/
def Sem.size : Sem → Nat
  | .publicWrites => Permits.publicWrites
  | .hashing => 1
  | .hashingReserved => 1

/-- What a call is for. -/
inductive Use
  /-- `try_public_write`. -/
  | publicWrite
  /-- `hashing`. -/
  | hashing (knownDevice : Bool)
  deriving DecidableEq, Repr

/-- The semaphores a call takes a permit of, in the order its `select!` looks at them. -/
def Use.wanted : Use → List Sem
  | .publicWrite => [.publicWrites]
  | .hashing true => [.hashingReserved, .hashing]
  | .hashing false => [.hashing]

/-- How far a call has come. -/
inductive Phase
  /-- In `hashing`. The semaphores have set permits aside for it that it has not seen yet. -/
  | waiting (granted : List Sem)
  /-- The request has the permit. -/
  | holding (sem : Sem)
  /-- A closure that owns the permit is queued in the blocking pool. -/
  | queued (sem : Sem)
  | running (sem : Sem)
  | finished
  /-- 503. -/
  | busy
  deriving DecidableEq, Repr

/-- A call and where it is. -/
structure Call where
  use : Use
  phase : Phase
  deriving DecidableEq, Repr

/-- What can happen to a call. -/
inductive Action
  | grant (sem : Sem)
  | poll
  /-- The time to wait is over. -/
  | timeout
  /-- The request is dropped. -/
  | cancel
  | spawn
  /-- The runtime drops the closure without running it. -/
  | discard
  | start
  /-- The closure returns or panics. -/
  | finish
  deriving DecidableEq, Repr

/-- The permits left in each semaphore. -/
abbrev Available := Sem → Nat

/-- One permit less. -/
def Available.take (available : Available) (sem : Sem) : Available :=
  fun s => if s = sem then available s - 1 else available s

/-- One permit more for each that is given back. -/
def Available.release (available : Available) (sems : List Sem) : Available :=
  fun s => available s + sems.count s

/-- What an action does to a call and to the semaphores; `none` when it cannot happen. -/
def Action.run (available : Available) (use : Use) : Action → Phase → Option (Phase × Available)
  | .grant sem, .waiting granted =>
    if sem ∈ use.wanted ∧ sem ∉ granted ∧ 0 < available sem then
      some (.waiting (sem :: granted), available.take sem)
    else none
  | .poll, .waiting granted =>
    match use.wanted.find? (· ∈ granted) with
    | some sem => some (.holding sem, available.release (granted.erase sem))
    | none => some (.waiting granted, available)
  | .timeout, .waiting granted => some (.busy, available.release granted)
  | .cancel, .waiting granted => some (.finished, available.release granted)
  | .cancel, .holding sem => some (.finished, available.release [sem])
  | .spawn, .holding sem => some (.queued sem, available)
  | .discard, .queued sem => some (.finished, available.release [sem])
  | .start, .queued sem => some (.running sem, available)
  | .finish, .running sem => some (.finished, available.release [sem])
  | _, _ => none

/-- The permits that are free, and all calls so far. -/
structure State where
  available : Available
  calls : List Call

/-- All permits are free. -/
def State.new : State := ⟨Sem.size, []⟩

/-- What happens next. -/
inductive Label
  /-- A further call. -/
  | call (use : Use)
  | act (i : Nat) (action : Action)

/-- A call begins, or one that has begun goes on. -/
def step (s : State) : Label → Option State
  | .call .publicWrite =>
    -- `try_acquire_owned` never waits
    if 0 < s.available .publicWrites then
      some ⟨s.available.take .publicWrites, s.calls ++ [⟨.publicWrite, .holding .publicWrites⟩]⟩
    else some { s with calls := s.calls ++ [⟨.publicWrite, .busy⟩] }
  | .call (.hashing knownDevice) =>
    some { s with calls := s.calls ++ [⟨.hashing knownDevice, .waiting []⟩] }
  | .act i action => do
    let call ← s.calls[i]?
    let (phase, available) ← action.run s.available call.use call.phase
    return ⟨available, s.calls.set i { call with phase }⟩

/-! ## What a call holds -/

/-- The permits that are set aside for the call or that it has. -/
def Phase.permits : Phase → List Sem
  | .waiting granted => granted
  | .holding sem | .queued sem | .running sem => [sem]
  | .finished | .busy => []

/-- The call's closure runs: an argon2id computation, or a public write. -/
def Phase.isRunning : Phase → Bool
  | .running _ => true
  | _ => false

/-- A call has no permit twice, and none that it does not ask for. -/
structure Call.Ok (call : Call) : Prop where
  nodup : call.phase.permits.Nodup
  wanted : ∀ sem ∈ call.phase.permits, sem ∈ call.use.wanted

theorem Call.Ok.of_permits_nil {call : Call} (h : call.phase.permits = []) : call.Ok := by
  refine ⟨?_, ?_⟩
  · rw [h]
    exact List.nodup_nil
  · rw [h]
    exact List.forall_mem_nil _

theorem Call.Ok.of_permits_subset {call call' : Call} (h : call.Ok) (huse : call'.use = call.use)
    (hsub : call'.phase.permits.Sublist call.phase.permits) : call'.Ok := by
  refine ⟨h.nodup.sublist hsub, ?_⟩
  rw [huse]
  exact fun sem hsem => h.wanted sem (hsub.subset hsem)

theorem Available.take_add_count {available : Available} {sem : Sem}
    (h : 0 < available sem) (s : Sem) : available.take sem s + [sem].count s = available s := by
  unfold Available.take
  by_cases hs : s = sem
  · subst hs
    rw [if_pos rfl, List.count_singleton_self]
    omega
  · rw [if_neg hs, List.count_singleton, if_neg (by simpa using Ne.symm hs), Nat.add_zero]

/-- An action moves permits between the call and the semaphores. -/
structure Exchange (available available' : Available) (phase phase' : Phase) : Prop where
  permits : ∀ sem, available' sem + phase'.permits.count sem = available sem +
    phase.permits.count sem

/-- A permit set aside is one less in the semaphore. -/
theorem exchange_grant {available : Available} {sem : Sem} {granted : List Sem}
    (h : 0 < available sem) :
    Exchange available (available.take sem) (.waiting granted) (.waiting (sem :: granted)) := by
  refine ⟨fun s => ?_⟩
  have htake := Available.take_add_count h s
  have hcons : (sem :: granted).count s = granted.count s + [sem].count s := by
    rw [List.count_cons, List.count_singleton]
  change available.take sem s + (sem :: granted).count s = available s + granted.count s
  omega

/-- Of what was set aside one permit is kept, and the others are returned. -/
theorem exchange_poll {available : Available} {sem : Sem} {granted : List Sem} (h : sem ∈ granted) :
    Exchange available (available.release (granted.erase sem)) (.waiting granted)
      (.holding sem) := by
  refine ⟨fun s => ?_⟩
  have hperm : (sem :: granted.erase sem).count s = granted.count s :=
    (List.perm_cons_erase h).symm.count_eq s
  rw [List.count_cons] at hperm
  change available s + (granted.erase sem).count s + [sem].count s = available s + granted.count s
  rw [List.count_singleton]
  omega

theorem exchange_release (available : Available) (phase : Phase) {phase' : Phase}
    (h : phase'.permits = []) :
    Exchange available (available.release phase.permits) phase phase' := by
  refine ⟨fun s => ?_⟩
  rw [h, List.count_nil, Nat.add_zero]
  rfl

theorem Exchange.of_permits_eq {available : Available} {phase phase' : Phase}
    (h : phase'.permits = phase.permits) :
    Exchange available available phase phase' := ⟨fun s => by rw [h]⟩

/-- Every action is an exchange, and leaves the call with permits it asks for. -/
theorem Action.run_spec {action : Action} {available available' : Available} {use : Use}
    {phase phase' : Phase}
    (h : action.run available use phase = some (phase', available')) (hok : Call.Ok ⟨use, phase⟩) :
    Exchange available available' phase phase' ∧ Call.Ok ⟨use, phase'⟩ := by
  unfold Action.run at h
  -- the cases of the definition, in its order
  split at h
  next sem granted =>
    obtain ⟨⟨hwanted, hnew, hpos⟩, h⟩ := Option.ite_none_right_eq_some.mp h
    cases h
    refine ⟨exchange_grant hpos, List.nodup_cons.mpr ⟨hnew, hok.nodup⟩, ?_⟩
    exact List.forall_mem_cons.mpr ⟨hwanted, hok.wanted⟩
  next granted =>
    split at h
    next sem hfind =>
      cases h
      have hsem : sem ∈ granted := by simpa using List.find?_some hfind
      exact ⟨exchange_poll hsem, hok.of_permits_subset rfl (List.singleton_sublist.mpr hsem)⟩
    next =>
      cases h
      exact ⟨.of_permits_eq rfl, hok⟩
  next granted =>
    cases h
    exact ⟨exchange_release available (.waiting granted) rfl, .of_permits_nil rfl⟩
  next granted =>
    cases h
    exact ⟨exchange_release available (.waiting granted) rfl, .of_permits_nil rfl⟩
  next sem =>
    cases h
    exact ⟨exchange_release available (.holding sem) rfl, .of_permits_nil rfl⟩
  next sem =>
    cases h
    exact ⟨.of_permits_eq rfl, hok.of_permits_subset rfl (List.Sublist.refl _)⟩
  next sem =>
    cases h
    exact ⟨exchange_release available (.queued sem) rfl, .of_permits_nil rfl⟩
  next sem =>
    cases h
    exact ⟨.of_permits_eq rfl, hok.of_permits_subset rfl (List.Sublist.refl _)⟩
  next sem =>
    cases h
    exact ⟨exchange_release available (.running sem) rfl, .of_permits_nil rfl⟩
  next => cases h

/-! ## Runs -/

/-- The permits of a semaphore that a call has. -/
def Call.held (sem : Sem) (call : Call) : Nat := call.phase.permits.count sem

/-- The invariant: no permit is lost or there twice, and calls have only permits they ask for. -/
structure Inv (s : State) : Prop where
  balanced : ∀ sem, s.available sem + (s.calls.map (Call.held sem)).sum = sem.size
  ok : ∀ call ∈ s.calls, call.Ok

theorem inv_new : Inv .new := ⟨fun _ => rfl, List.forall_mem_nil _⟩

/-- A further call that took what it has out of the semaphores. -/
theorem Inv.append {s : State} (H : Inv s) {available : Available} {call : Call} (hok : call.Ok)
    (htake : ∀ sem, available sem + call.held sem = s.available sem) :
    Inv ⟨available, s.calls ++ [call]⟩ := by
  refine ⟨fun sem => ?_, ?_⟩
  · have hsum := H.balanced sem
    have hcall := htake sem
    rw [List.map_append, List.sum_append, List.map_singleton, List.sum_singleton]
    change available sem + ((s.calls.map (Call.held sem)).sum + call.held sem) = sem.size
    omega
  · intro call' hcall'
    rcases List.mem_append.mp hcall' with hcall' | hcall'
    · exact H.ok call' hcall'
    · rw [List.mem_singleton.mp hcall']
      exact hok

theorem inv_step {s s' : State} {l : Label} (H : Inv s) (h : step s l = some s') : Inv s' := by
  cases l with
  | call use =>
    cases use with
    | publicWrite =>
      simp only [step] at h
      split at h
      next hpos =>
        cases h
        refine H.append ⟨List.nodup_singleton _, fun sem hsem => hsem⟩ fun sem => ?_
        exact Available.take_add_count hpos sem
      next =>
        cases h
        exact H.append (.of_permits_nil rfl) fun sem => rfl
    | hashing knownDevice =>
      cases h
      exact H.append (.of_permits_nil rfl) fun sem => rfl
  | act i action =>
    simp only [step, Option.bind_eq_bind, Option.bind_eq_some_iff, Option.pure_def,
      Option.some.injEq] at h
    obtain ⟨call, hcall, ⟨phase, available⟩, hrun, rfl⟩ := h
    obtain ⟨hexchange, hok⟩ := Action.run_spec hrun (H.ok call (List.mem_of_getElem? hcall))
    refine ⟨fun sem => ?_, ?_⟩
    · have hsum := H.balanced sem
      have hset := Pool.sum_map_set hcall (Call.held sem) { call with phase }
      have hmove : available sem + Call.held sem { call with phase } = s.available sem +
          call.held sem :=
        hexchange.permits sem
      change available sem + ((s.calls.set i { call with phase }).map (Call.held sem)).sum =
        sem.size
      omega
    · intro call' hmem
      rcases List.mem_or_eq_of_mem_set hmem with hmem | rfl
      · exact H.ok call' hmem
      · exact hok

theorem inv_of_exec {h : List (Lts.Step State Label)} {s : State} (H : Lts.Exec step .new h s) :
    Inv s :=
  H.invariant Inv inv_new inv_step

/-- The calls that have a permit of the semaphore are at most as many as there are. -/
theorem Inv.countP_le {s : State} (H : Inv s) (sem : Sem) {p : Call → Bool}
    (hp : ∀ call ∈ s.calls, p call = true → sem ∈ call.phase.permits) :
    s.calls.countP p ≤ sem.size := by
  have hcount : ∀ calls : List Call, (∀ call ∈ calls, p call = true → sem ∈ call.phase.permits) →
      calls.countP p ≤ (calls.map (Call.held sem)).sum := by
    intro calls hcalls
    induction calls with
    | nil => exact Nat.le_refl 0
    | cons call calls ih =>
      rw [List.forall_mem_cons] at hcalls
      rw [List.countP_cons, List.map_cons, List.sum_cons]
      have hrest := ih hcalls.2
      split
      next hcall =>
        have hpos : 0 < call.held sem := List.count_pos_iff.mpr (hcalls.1 hcall)
        omega
      next => omega
  have hsum := H.balanced sem
  have hle := hcount s.calls hp
  omega

/-- The call runs under a permit of the semaphore. -/
def Call.runsUnder (sem : Sem) (call : Call) : Bool := call.phase = .running sem

/-- The call computes an argon2id hash. -/
def Call.isHashing (call : Call) : Bool := call.use ≠ .publicWrite && call.phase.isRunning

theorem runsUnder_of_isRunning {call : Call} (h : call.phase.isRunning = true) :
    ∃ sem, call.phase = .running sem := by
  obtain ⟨use, phase⟩ := call
  cases phase with
  | running sem => exact ⟨sem, rfl⟩
  | waiting | holding | queued | finished | busy => cases h

/-- The semaphores of a hashing call. -/
theorem hashing_or_reserved {use : Use} {sem : Sem} (huse : use ≠ .publicWrite)
    (h : sem ∈ use.wanted) : sem = .hashing ∨ sem = .hashingReserved ∧ use = .hashing true := by
  cases use with
  | publicWrite => exact absurd rfl huse
  | hashing knownDevice =>
    cases knownDevice with
    | false => exact .inl (List.mem_singleton.mp h)
    | true =>
      rcases List.mem_cons.mp h with rfl | h
      · exact .inr ⟨rfl, rfl⟩
      · exact .inl (List.mem_singleton.mp h)

theorem Call.Ok.use_of_reserved {call : Call} (h : call.Ok)
    (hreserved : .hashingReserved ∈ call.phase.permits) : call.use = .hashing true := by
  have hwanted := h.wanted _ hreserved
  have huse : call.use ≠ .publicWrite := by
    intro huse
    rw [huse] at hwanted
    cases List.mem_singleton.mp hwanted
  rcases hashing_or_reserved huse hwanted with heq | ⟨-, huse⟩
  · cases heq
  · exact huse

/-- In every run of any number of requests, whichever of them time out, are dropped or panic: at
most two argon2id computations run at once, at most one of them for browsers without a device cookie
of the account, at most eight public writes; only a known device has the reserved permit; and when
all requests are over, all permits are back. -/
theorem password_hashing_bounded {h : List (Lts.Step State Label)} {s : State}
    (H : Lts.Exec step .new h s) : s.calls.countP Call.isHashing ≤ 2 ∧
    s.calls.countP (fun call => call.isHashing && call.use = .hashing false) ≤ 1 ∧
    s.calls.countP (fun call => call.use = .publicWrite && call.phase.isRunning) ≤ publicWrites ∧
    (∀ call ∈ s.calls, .hashingReserved ∈ call.phase.permits → call.use = .hashing true) ∧
    ((∀ call ∈ s.calls, call.phase = .finished ∨ call.phase = .busy) → s.available = Sem.size) := by
  have hinv := inv_of_exec H
  have hunder : ∀ sem, s.calls.countP (Call.runsUnder sem) ≤ sem.size := fun sem =>
    hinv.countP_le sem
      fun call _ hrun => by rw [of_decide_eq_true hrun]; exact List.mem_singleton_self sem
  -- the permit under which a call runs is one that it asks for
  have hpermit : ∀ call ∈ s.calls, call.phase.isRunning = true →
      ∃ sem ∈ call.use.wanted, call.phase = .running sem := by
    intro call hcall hrun
    obtain ⟨sem, hphase⟩ := runsUnder_of_isRunning hrun
    refine ⟨sem, (hinv.ok call hcall).wanted sem ?_, hphase⟩
    rw [hphase]
    exact List.mem_singleton_self sem
  refine ⟨?_, ?_, ?_, ?_, ?_⟩
  · have hsplit : s.calls.countP Call.isHashing ≤
        s.calls.countP (fun call => call.runsUnder .hashing ||
          call.runsUnder .hashingReserved) := by
      refine List.countP_mono_left fun call hcall hhash => ?_
      rw [Call.isHashing, Bool.and_eq_true, decide_eq_true_eq] at hhash
      obtain ⟨sem, hwanted, hphase⟩ := hpermit call hcall hhash.2
      rcases hashing_or_reserved hhash.1 hwanted with rfl | ⟨rfl, -⟩
      · simp [Call.runsUnder, hphase]
      · simp [Call.runsUnder, hphase]
    have hor : ∀ calls : List Call,
        calls.countP (fun call => call.runsUnder .hashing || call.runsUnder .hashingReserved) ≤
          calls.countP (Call.runsUnder .hashing) + calls.countP
            (Call.runsUnder .hashingReserved) := by
      intro calls
      induction calls with
      | nil => exact Nat.le_refl 0
      | cons call calls ih =>
        simp only [List.countP_cons]
        cases call.runsUnder .hashing <;> cases call.runsUnder .hashingReserved <;> simp <;> omega
    have hgeneral : s.calls.countP (Call.runsUnder .hashing) ≤ 1 := hunder .hashing
    have hreserved : s.calls.countP (Call.runsUnder .hashingReserved) ≤ 1 := hunder .hashingReserved
    have hsum := hor s.calls
    omega
  · refine Nat.le_trans (List.countP_mono_left fun call hcall hhash => ?_) (hunder .hashing)
    rw [Call.isHashing, Bool.and_eq_true, Bool.and_eq_true, decide_eq_true_eq, decide_eq_true_eq]
      at hhash
    obtain ⟨sem, hwanted, hphase⟩ := hpermit call hcall hhash.1.2
    rw [hhash.2] at hwanted
    rw [List.mem_singleton.mp hwanted] at hphase
    exact decide_eq_true hphase
  · refine Nat.le_trans (List.countP_mono_left fun call hcall hwrite => ?_) (hunder .publicWrites)
    rw [Bool.and_eq_true, decide_eq_true_eq] at hwrite
    obtain ⟨sem, hwanted, hphase⟩ := hpermit call hcall hwrite.2
    rw [hwrite.1] at hwanted
    rw [List.mem_singleton.mp hwanted] at hphase
    exact decide_eq_true hphase
  · intro call hcall hreserved
    exact (hinv.ok call hcall).use_of_reserved hreserved
  · intro hover
    funext sem
    have hsum := hinv.balanced sem
    have hzero : (s.calls.map (Call.held sem)).sum = 0 := by
      rw [List.sum_eq_zero_iff]
      intro n hn
      obtain ⟨call, hcall, rfl⟩ := List.mem_map.mp hn
      rcases hover call hcall with hphase | hphase
      · rw [Call.held, hphase]
        rfl
      · rw [Call.held, hphase]
        rfl
    omega

/-- A dropped request, a stranger and a known device; the two compute at the same time. -/
theorem password_hashing_bounded_two :
    (Lts.last State.new (Lts.history step .new [.call (.hashing false), .call (.hashing false),
      .call (.hashing true),
      .act 0 (.grant .hashing), .act 0 .cancel, .act 1 (.grant .hashing), .act 1 .poll,
      .act 1 .spawn, .act 1 .start,
      .act 2 (.grant .hashingReserved), .act 2 .poll, .act 2 .spawn,
      .act 2 .start])).calls.countP Call.isHashing ≤ 2 :=
  (password_hashing_bounded (Lts.Exec.of_history (by decide))).1

/-- The steps of the call itself that bring it to the reserved permit. -/
def toReserved (i : Nat) : List Label := [.act i (.grant .hashingReserved), .act i .poll]

/-- A known device that waits gets the reserved permit by steps of its own, unless another known
device has it: whatever requests without a device cookie of the account there are, and whatever they
hold. -/
theorem known_device_finds_permit {h : List (Lts.Step State Label)} {s : State}
    (H : Lts.Exec step .new h s) {i : Nat}
    {granted : List Sem} (hi : s.calls[i]? = some ⟨.hashing true, .waiting granted⟩)
    (hothers : ∀ j call, s.calls[j]? = some call → j ≠ i → call.use = .hashing true →
      .hashingReserved ∉ call.phase.permits) :
    ∃ h' s', Lts.Exec step s h' s' ∧ (h'.map Lts.Step.label).Sublist (toReserved i) ∧
      s'.calls[i]? = some ⟨.hashing true, .holding .hashingReserved⟩ := by
  have hinv := inv_of_exec H
  have hlt : i < s.calls.length := (List.getElem?_eq_some_iff.mp hi).1
  by_cases hgranted : .hashingReserved ∈ granted
  · have hpoll : step s (.act i .poll) = some ⟨s.available.release (granted.erase .hashingReserved),
        s.calls.set i ⟨.hashing true, .holding .hashingReserved⟩⟩ := by
      simp [step, hi, Action.run, Use.wanted, hgranted]
    refine ⟨_, _, .snoc .nil hpoll, ?_, List.getElem?_set_self hlt⟩
    exact (List.Sublist.refl [_]).cons _
  · -- nobody has the reserved permit, so it is in its semaphore
    have hzero : (s.calls.map (Call.held .hashingReserved)).sum = 0 := by
      rw [List.sum_eq_zero_iff]
      intro n hn
      obtain ⟨call, hcall, rfl⟩ := List.mem_map.mp hn
      rw [Call.held, List.count_eq_zero]
      intro hreserved
      obtain ⟨j, hj⟩ := List.mem_iff_getElem?.mp hcall
      by_cases hji : j = i
      · subst hji
        rw [hi, Option.some.injEq] at hj
        rw [← hj] at hreserved
        exact hgranted hreserved
      · exact hothers j call hj hji ((hinv.ok call hcall).use_of_reserved hreserved) hreserved
    have hpos : 0 < s.available .hashingReserved := by
      have hsum := hinv.balanced .hashingReserved
      change s.available .hashingReserved + _ = 1 at hsum
      omega
    have hgrant : step s (.act i (.grant .hashingReserved)) =
        some ⟨s.available.take .hashingReserved,
        s.calls.set i ⟨.hashing true, .waiting (.hashingReserved :: granted)⟩⟩ := by
      simp [step, hi, Action.run, Use.wanted, hgranted, hpos]
    have hpoll : step ⟨s.available.take .hashingReserved,
        s.calls.set i ⟨.hashing true, .waiting (.hashingReserved :: granted)⟩⟩ (.act i .poll) =
        some ⟨(s.available.take .hashingReserved).release granted,
          s.calls.set i ⟨.hashing true, .holding .hashingReserved⟩⟩ := by
      simp [step, hlt, Action.run, Use.wanted]
    refine ⟨_, _, .snoc (.snoc .nil hgrant) hpoll, List.Sublist.refl _, List.getElem?_set_self hlt⟩

/-- A stranger computes while a known device waits. -/
theorem known_device_finds_permit_beside_strangers :
    ∃ h' s', Lts.Exec step (Lts.last State.new
      (Lts.history step .new [.call (.hashing false), .call (.hashing true),
      .act 0 (.grant .hashing), .act 0 .poll, .act 0 .spawn, .act 0 .start])) h' s' ∧
      (h'.map Lts.Step.label).Sublist (toReserved 1) ∧
      s'.calls[1]? = some ⟨.hashing true, .holding .hashingReserved⟩ := by
  have hrun :
      (Lts.trace step .new [.call (.hashing false), .call (.hashing true), .act 0 (.grant .hashing),
      .act 0 .poll, .act 0 .spawn, .act 0 .start]).isSome = true := by decide
  have hwaits :
      (Lts.last State.new (Lts.history step .new [.call (.hashing false), .call (.hashing true),
      .act 0 (.grant .hashing), .act 0 .poll, .act 0 .spawn, .act 0 .start])).calls[1]? =
      some ⟨.hashing true, .waiting []⟩ := by decide
  refine known_device_finds_permit (.of_history hrun) hwaits ?_
  intro j call hj hji huse
  have hcalls : j = 0 ∨ j = 1 := by
    have hlt := (List.getElem?_eq_some_iff.mp hj).1
    change j < 2 at hlt
    omega
  rcases hcalls with rfl | rfl
  · cases hj
    cases huse
  · exact absurd rfl hji

end Permits

end Kohaku.Limits
