import Kohaku.Lockout.Counters
import Kohaku.Server.Tables

/-!
# Lockout never overshoots

The four counter columns of an account, read as the machine of `Lockout.Counters`. Every run of
the server drives that machine with the checks of the account that were decided, in their order
(`World.Run.counters`), so the bounds proved for the machine hold for every interleaving.
-/

namespace Kohaku

open Sql Credentials World
open Lockout (Check Kind Counters)

/-- The constants of `credentials.rs`. -/
def lockoutPolicy : Lockout.Policy where
  lockAfter := lockAfter
  lockFor := lockSeconds
  windowMax := deviceFailuresMax
  windowFor := deviceWindowSeconds
  lockAfter_pos := by decide
  lockFor_nonneg := by decide
  windowMax_pos := by decide
  windowFor_pos := by decide

/-- The columns of an account that count failures. -/
def UserRow.counters (u : UserRow) : Counters :=
  ⟨u.failedLogins, u.lockedUntil, u.deviceFailures, u.deviceWindowStart⟩

/-- The counters of an account. -/
def Db.counters (db : Db) (uid : Nat) : Counters :=
  match db.user? uid with
  | some u => u.counters
  | none => ⟨0, none, 0, none⟩

/-- A failure is counted when it changed the account's row. -/
def checkKind (o : Outcome Value) (before after : Option UserRow) : Kind :=
  match o with
  | .success _ => .passed
  | .failure => if before = after then .ignored else .counted
  | .twoFactorRequired => .ignored

/-- The check of account `uid` that the step decided, if it did. -/
def Event.check? (A : App) (uid : Nat) (e : Event) : Option Check :=
  match e.pre.plan A e.label with
  | some ⟨some (.decide c work d), _⟩ =>
    if c.accountId = uid then
      match (Tx.decide c work d).run A e.pre.db with
      | some (.outcome o, _) => some ⟨c.verified.knownDevice, c.now,
          checkKind o (e.pre.db.user? uid) (e.post.db.user? uid)⟩
      | _ => none
    else none
  | _ => none

/-- The checks of account `uid` that were decided, in order. -/
def checks (A : App) (uid : Nat) (h : List Event) : List Check := h.filterMap (Event.check? A uid)

variable {A : App} {w₀ w : World} {h : List Event} {uid : Nat}

/-! ## The columns as counters -/

theorem counted_counters (u : UserRow) (known : Bool) (now : Time) :
    (counted known now u).counters = u.counters.count lockoutPolicy known now := by
  cases known with
  | true =>
    have hopen : u.counters.windowOpen lockoutPolicy now =
        !(u.deviceWindowStart.all fun start => start + deviceWindowSeconds ≤ now) := by
      cases hs : u.deviceWindowStart with
      | none => simp [Counters.windowOpen, UserRow.counters, hs]
      | some start =>
        simp only [Counters.windowOpen, UserRow.counters, hs, lockoutPolicy, Option.any_some,
          Option.all_some, ← decide_not]
        exact decide_eq_decide.mpr Int.not_le.symm
    simp only [counted, if_true, countDevice, Counters.count, hopen]
    cases u.deviceWindowStart.all fun start => start + deviceWindowSeconds ≤ now <;> rfl
  | false =>
    simp only [counted, Bool.false_eq_true, if_false, countLogin, Counters.count]
    change (if u.failedLogins + 1 ≥ lockAfter then _ else _ : UserRow).counters =
      if u.failedLogins + 1 ≥ lockAfter then _ else _
    split <;> rfl

theorem onRow_counters (work : Work) (u : UserRow) (last : Option Int) :
    (work.onRow (UserRow.resetCounters { u with totpLastStep := last })).counters =
      u.counters.pass := by
  cases work <;> rfl

/-! ## The run drives the machine -/

theorem Event.check?_of_commits {e : Event} {c : Checking} {work : Work} {d : Draws}
    {o : Outcome Value} (hc : e.Commits A (.decide c work d) (.outcome o)) :
    e.check? A uid =
      if c.accountId = uid then
        some ⟨c.verified.knownDevice, c.now,
          checkKind o (e.pre.db.user? uid) (e.post.db.user? uid)⟩
      else none := by
  obtain ⟨⟨tx, requests⟩, hp, rfl, hrun⟩ := hc
  simp only [Event.check?, hp, hrun]

theorem Event.commits_of_check? {e : Event} {k : Check} (hs : e.pre.step A e.label = some e.post)
    (hk : e.check? A uid = some k) :
    ∃ c work d o, e.Commits A (.decide c work d) (.outcome o) ∧ c.accountId = uid ∧
      k = ⟨c.verified.knownDevice, c.now,
        checkKind o (e.pre.db.user? uid) (e.post.db.user? uid)⟩ := by
  unfold Event.check? at hk
  split at hk
  · rename_i c work d reqs hp
    split at hk
    · rename_i hid
      split at hk
      · rename_i o db hrun
        cases hk
        exact ⟨c, work, d, o, Event.commits_of_run hs hp rfl hrun, hid, rfl⟩
      · cases hk
    · cases hk
  · cases hk

/-- The deciding transaction moves the counters as the check says. -/
theorem counters_of_decide {db db' : Db} {c : Checking} {work : Work} {d : Draws}
    {o : Outcome Value} (h : Effect A db (.decide c work d) (.outcome o) db') :
    (db.counters c.accountId).step lockoutPolicy ⟨c.verified.knownDevice, c.now,
      checkKind o (db.user? c.accountId) (db'.user? c.accountId)⟩ =
      some (db'.counters c.accountId) := by
  have hpassed : ∀ {u : UserRow} {db₁ : Db} {value : Value}, Passed A db c u db₁ →
      o = .success value →
      (db.counters c.accountId).step lockoutPolicy ⟨c.verified.knownDevice, c.now,
        checkKind o (db.user? c.accountId) (db'.user? c.accountId)⟩ =
        some (db'.counters c.accountId) := by
    rintro u db₁ value hp rfl
    obtain ⟨u', hu', hstep⟩ := h.row hp.user
    have hb : u.counters.blocked lockoutPolicy c.verified.knownDevice c.now = false := hp.unblocked
    have hpass : u'.counters = u.counters.pass := by
      cases hstep with
      | same hne => exact absurd (congrArg some (Db.id_of_user? hp.user).symm) hne
      | passed => exact onRow_counters ..
    simp only [Db.counters, hp.user, hu', checkKind, Counters.step, hb, Bool.false_eq_true,
      if_false, hpass]
  cases h with
  | refused ho =>
    cases o with
    | success value => exact absurd rfl (ho value)
    | failure => simp [checkKind, Counters.step]
    | twoFactorRequired => rfl
  | @failed u _ _ _ hu hb =>
    have hid := Db.id_of_user? hu
    have hu' : (afterFailure A db u c.verified.knownDevice c.now).user? c.accountId =
        some (counted c.verified.knownDevice c.now u) := by
      rw [← hid]
      change (db.updateUser u.id (counted c.verified.knownDevice c.now) (counted_id _)).user? u.id =
        _
      rw [Db.user?_updateUser_self, hid, hu]
      rfl
    have hb' : u.counters.blocked lockoutPolicy c.verified.knownDevice c.now = false := hb
    simp only [checkKind, hu, hu', Option.some.injEq]
    split
    · rename_i heq
      simp only [Counters.step, Db.counters, hu, hu', ← heq]
    · simp only [Counters.step, Db.counters, hu, hu', hb', Bool.false_eq_true, if_false,
        counted_counters]
  | login hp | changePassword hp | startTotp hp | disableTotp hp | regenerateCodes hp =>
    exact hpassed hp rfl

/-- Every other transaction but `unlock` leaves the counters of `uid` alone. -/
theorem counters_of_other {db db' : Db} {tx : Tx} {r : Result} (h : Effect A db tx r db')
    (hd : ∀ c work d, tx = .decide c work d → c.accountId ≠ uid)
    (hun : ∀ email now, tx ≠ .unlock email now) : db'.counters uid = db.counters uid := by
  cases hu : db.user? uid with
  | none => simp only [Db.counters, hu, h.user?_none hu]
  | some u =>
    obtain ⟨u', hu', hstep⟩ := h.row hu
    have hid := Db.id_of_user? hu
    simp only [Db.counters, hu, hu']
    cases hstep with
    | same | enrolled | reset | setDisabled => rfl
    | counted hc => exact absurd (hc.trans hid) (hd _ _ _ rfl)
    | passed hc => exact absurd (hc.trans hid) (hd _ _ _ rfl)
    | unlock => exact absurd rfl (hun _ _)

/-- `admin unlock`. -/
def Label.isUnlock : Label → Bool
  | .unlock .. => true
  | _ => false

/-- The step is no `admin unlock`. -/
abbrev Event.NoUnlock (e : Event) : Prop := e.label.isUnlock = false

/-- A step moves the counters as the check it decided says, or not at all. -/
theorem Event.counters (uid : Nat) {e : Event} (hs : e.pre.step A e.label = some e.post)
    (hun : e.NoUnlock) : (e.pre.db.counters uid).run lockoutPolicy (e.check? A uid).toList =
      some (e.post.db.counters uid) := by
  cases hk : e.check? A uid with
  | some k =>
    obtain ⟨c, work, d, o, hc, rfl, rfl⟩ := commits_of_check? hs hk
    simpa [Counters.run] using counters_of_decide hc.effect
  | none =>
    change some _ = some _
    congr 1
    rcases commits_or_same hs with hsame | ⟨tx, r, hc⟩
    · rw [hsame]
    · refine (counters_of_other hc.effect ?_ ?_).symm
      · rintro c work d rfl hid
        obtain ⟨o, rfl⟩ := hc.effect.outcome
        rw [check?_of_commits hc, if_pos hid] at hk
        cases hk
      · rintro email now rfl
        have hf := hc.fires
        generalize hl : e.label = l at hf
        cases hf
        rw [Event.NoUnlock, hl] at hun
        cases hun

/-- A run without `admin unlock` drives the counters of an account with its decided checks. -/
theorem World.Run.counters (uid : Nat) (H : World.Run A w₀ h w) (hun : ∀ e ∈ h, e.NoUnlock) :
    (w₀.db.counters uid).run lockoutPolicy (checks A uid h) = some (w.db.counters uid) := by
  induction H with
  | nil => rfl
  | @snoc h m l w' H hs ih =>
    have hstep := Event.counters uid (e := ⟨m, l, w'⟩) hs (hun _ (by simp))
    have hlist : checks A uid (h ++ [⟨m, l, w'⟩]) =
        checks A uid h ++ (Event.check? A uid ⟨m, l, w'⟩).toList := by
      unfold checks
      rw [List.filterMap_append]
      congr 1
    rw [hlist, Counters.run_append, ih fun e he => hun e (List.mem_append_left _ he),
      Option.bind_some]
    exact hstep

/-- In every state reached, the counters of every account are within their limits. -/
theorem World.Run.counters_bounded (uid : Nat) (hinit : w₀.Init) (H : World.Run A w₀ h w) :
    (w.db.counters uid).Bounded lockoutPolicy := by
  have hzero : ∀ l, (⟨0, l, 0, none⟩ : Counters).Bounded lockoutPolicy :=
    fun l => ⟨le_rfl, lockoutPolicy.lockAfter_pos, le_rfl, lockoutPolicy.windowMax_pos.le⟩
  refine H.invariant (fun w => (w.db.counters uid).Bounded lockoutPolicy) ?_ ?_
  · unfold Db.counters
    split
    · rename_i u hu
      obtain ⟨h₁, -, h₃, h₄, -⟩ := hinit.counters u (Db.mem_of_user? hu)
      simp only [UserRow.counters, h₁, h₃, h₄]
      exact hzero _
    · exact hzero _
  · intro m l w' hI hs
    by_cases hun : Event.NoUnlock ⟨m, l, w'⟩
    · exact hI.run (Event.counters uid (e := ⟨m, l, w'⟩) hs hun)
    · obtain ⟨email, now, rfl⟩ : ∃ email now, l = .unlock email now := by
        cases l <;> first | exact ⟨_, _, rfl⟩ | exact absurd rfl hun
      rcases Event.commits_or_same (e := ⟨m, .unlock email now, w'⟩) hs with hsame | ⟨tx, r, hc⟩
      · rw [show w'.db = m.db from hsame]
        exact hI
      · have hf := hc.fires
        cases hf
        cases hu : m.db.user? uid with
        | none =>
          simp only [Db.counters, hu, hc.effect.user?_none hu] at hI ⊢
          exact hI
        | some u =>
          obtain ⟨u', hu', hstep⟩ := hc.effect.row hu
          change w'.db.user? uid = _ at hu'
          simp only [Db.counters, hu, hu'] at hI ⊢
          cases hstep with
          | same => exact hI
          | unlock => exact hzero _

/-! ## The bounds -/

theorem checks_append {h₁ h₂ : List Event} :
    checks A uid (h₁ ++ h₂) = checks A uid h₁ ++ checks A uid h₂ := List.filterMap_append

/-- The checks of the account were decided in the order of their clock values. -/
def InOrder (A : App) (uid : Nat) (h : List Event) : Prop :=
  (checks A uid h).Pairwise fun a b => a.now ≤ b.now

/-- After a check that started a lock, none without a known device passes, is counted or moves
the lock before the lock's end. -/
theorem World.Run.lock_holds {h₁ h₂ h₃ : List Event} {e e' : Event} {k k' : Check}
    (H : World.Run A w₀ (h₁ ++ e :: h₂ ++ e' :: h₃) w)
    (hun : ∀ e'' ∈ h₁ ++ e :: h₂ ++ e' :: h₃, e''.NoUnlock) (hk : e.check? A uid = some k)
    (hstart : (e.post.db.counters uid).lockedUntil ≠ (e.pre.db.counters uid).lockedUntil)
    (hk' : e'.check? A uid = some k') (hknown : k'.known = false)
    (hlt : k'.now < k.now + lockSeconds) :
    k'.kind = .ignored ∧
      (e'.post.db.counters uid).lockedUntil = (e'.pre.db.counters uid).lockedUntil := by
  obtain ⟨H', hs', -⟩ := H.split
  obtain ⟨-, hs, H₂⟩ := H'.split
  have hmove := Event.counters uid hs (hun e (by simp))
  have hmove' := Event.counters uid hs' (hun e' (by simp))
  have hlock : (e.post.db.counters uid).lockedUntil = some (k.now + lockSeconds) := by
    rw [hk] at hmove
    obtain ⟨m, hm, hnil⟩ := Counters.run_cons hmove
    cases hnil
    generalize e.post.db.counters uid = c' at hm hstart
    cases hm with
    | locks => rfl
    | ignored | passed | failed | inWindow | opensWindow => exact absurd rfl hstart
  have hrun := World.Run.counters uid (H₂.snoc hs') (by
    intro e'' he''
    refine hun e'' ?_
    simp only [List.mem_append, List.mem_cons, List.not_mem_nil, or_false] at he'' ⊢
    tauto)
  have hign : k'.kind = .ignored := by
    refine (Counters.run_locked ⟨_, hlock, le_rfl⟩ hrun).2 k' ?_ hknown hlt
    rw [checks_append]
    refine List.mem_append_right _ ?_
    exact List.mem_filterMap.mpr ⟨e', List.mem_singleton_self _, hk'⟩
  refine ⟨hign, ?_⟩
  rw [hk'] at hmove'
  obtain ⟨m, hm, hnil⟩ := Counters.run_cons hmove'
  cases hnil
  generalize e'.post.db.counters uid = c' at hm
  cases hm with
  | ignored => rfl
  | passed | failed | locks | inWindow | opensWindow => cases hign

/-- A stretch of a run without a check of the account that passes, in which the account's device
window at some point is the one from `s`. -/
structure DeviceStretch (A : App) (w₀ : World) (uid : Nat) (s : Time) (h₁ h₂ : List Event) :
    Prop where
  unpassed : ∀ k ∈ checks A uid h₂, k.kind ≠ .passed
  window : ∃ a b, h₂ = a ++ b ∧
    ((Lts.last w₀ (h₁ ++ a)).db.counters uid).windowStart = some s

theorem World.Run.window_holds {h₁ h₂ : List Event} {s : Time} (hinit : w₀.Init)
    (H : World.Run A w₀ (h₁ ++ h₂) w) (hun : ∀ e ∈ h₁ ++ h₂, e.NoUnlock)
    (hord : InOrder A uid (h₁ ++ h₂)) (hst : DeviceStretch A w₀ uid s h₁ h₂) :
    Counters.WindowInv lockoutPolicy s 0
      (Counters.tally true s deviceWindowSeconds (checks A uid h₂))
      (∃ k ∈ checks A uid h₂, s + deviceWindowSeconds ≤ k.now) (w.db.counters uid) := by
  obtain ⟨a, b, rfl, hw⟩ := hst.window
  obtain ⟨m, H₁, H₂⟩ := H.of_append
  obtain ⟨m', Ha, Hb⟩ := H₂.of_append
  have hun₂ : ∀ e ∈ a ++ b, e.NoUnlock := fun e he => hun e (List.mem_append_right _ he)
  have hrun := World.Run.counters uid H₂ hun₂
  have hruna := World.Run.counters uid Ha fun e he => hun₂ e (List.mem_append_left _ he)
  rw [(H₁.append Ha).last_eq] at hw
  unfold InOrder at hord
  rw [checks_append] at hord
  have hsorted := (List.pairwise_append.mp hord).2.1
  have hpass := hst.unpassed
  rw [checks_append] at hrun hsorted hpass ⊢
  exact Counters.run_window (World.Run.counters_bounded uid hinit H₁) hrun hsorted hpass hruna hw

/-- Once the window holds its limit, no known-device check passes or is counted in it. -/
theorem Event.ignored_of_window {e : Event} {k : Check} {s : Time}
    (hs : e.pre.step A e.label = some e.post) (hun : e.NoUnlock) (hk : e.check? A uid = some k)
    (hknown : k.known = true) (hlt : k.now < s + deviceWindowSeconds)
    (hw : (e.pre.db.counters uid).windowStart = some s)
    (hfull : deviceFailuresMax ≤ (e.pre.db.counters uid).windowFailures) : k.kind = .ignored := by
  have hmove := Event.counters uid hs hun
  rw [hk] at hmove
  obtain ⟨m, hm, -⟩ := Counters.run_cons hmove
  have hopen : ∀ now, now < s + deviceWindowSeconds →
      (e.pre.db.counters uid).windowOpen lockoutPolicy now = true := by
    intro now hnow
    simpa [Counters.windowOpen, hw, lockoutPolicy] using hnow
  cases hm with
  | ignored => rfl
  | @passed known now hb =>
    cases hknown
    have hmax : lockoutPolicy.windowMax ≤ (e.pre.db.counters uid).windowFailures := hfull
    simp [Counters.blocked, hopen now hlt, hmax] at hb
  | failed | locks => cases hknown
  | inWindow _ hlt' => exact absurd hfull (not_le.mpr hlt')
  | @opensWindow now ho =>
    rw [hopen now hlt] at ho
    cases ho

/-- Lockout never overshoots. -/
theorem lockout_never_overshoots (A : App) (w₀ w : World) (h : List Event) (hinit : w₀.Init)
    (H : World.Run A w₀ h w) :
    (∀ u ∈ w.db.users, 0 ≤ u.failedLogins ∧ u.failedLogins ≤ 9 ∧ 0 ≤ u.deviceFailures ∧
      u.deviceFailures ≤ 20) ∧
    ((∀ e ∈ h, e.NoUnlock) → ∀ uid, InOrder A uid h →
      (∀ t, (∀ k ∈ checks A uid h, k.kind = .passed → ¬(t ≤ k.now ∧ k.now < t + 900)) →
        Counters.tally false t 900 (checks A uid h) ≤ 10) ∧
      (∀ h₁ e h₂ e' h₃ k k', h = h₁ ++ e :: h₂ ++ e' :: h₃ → e.check? A uid = some k →
        (e.post.db.counters uid).lockedUntil ≠ (e.pre.db.counters uid).lockedUntil →
        e'.check? A uid = some k' → k'.known = false → k'.now < k.now + 900 →
        k'.kind = .ignored ∧
          (e'.post.db.counters uid).lockedUntil = (e'.pre.db.counters uid).lockedUntil) ∧
      ∀ h₁ h₂ h₃ s, h = h₁ ++ h₂ ++ h₃ → DeviceStretch A w₀ uid s h₁ h₂ →
        Counters.tally true s 3600 (checks A uid h₂) ≤ 20 ∧
        (20 ≤ Counters.tally true s 3600 (checks A uid h₂) →
          ∀ e' h₄ k', h₃ = e' :: h₄ → e'.check? A uid = some k' → k'.known = true →
            k'.now < s + 3600 → k'.kind = .ignored)) := by
  refine ⟨fun u hu => ?_, fun hun uid hord => ⟨fun t hpass => ?_, ?_, ?_⟩⟩
  · have hb := H.counters_bounded u.id hinit
    simp only [Db.counters, Db.user?_of_mem hu] at hb
    exact ⟨hb.failures_nonneg, Int.le_of_lt_add_one hb.failures_lt, hb.window_nonneg, hb.window_le⟩
  · have hb : (w₀.db.counters uid).Bounded lockoutPolicy :=
      World.Run.counters_bounded uid (A := A) hinit .nil
    have hlock := (Counters.run_lock hb (H.counters uid hun) hord hpass).le
    exact Int.ofNat_le.mp hlock
  · rintro h₁ e h₂ e' h₃ k k' rfl hk hstart hk' hknown hlt
    exact H.lock_holds hun hk hstart hk' hknown hlt
  · rintro h₁ h₂ h₃ s rfl hst
    obtain ⟨m, H', H₃⟩ := H.of_append
    have hord' : InOrder A uid (h₁ ++ h₂) := by
      unfold InOrder at hord ⊢
      rw [checks_append] at hord
      exact (List.pairwise_append.mp hord).1
    have hwin := World.Run.window_holds hinit H'
      (fun e he => hun e (List.mem_append_left _ he)) hord' hst
    have hmax : 0 + (Counters.tally true s 3600 (checks A uid h₂) : Int) ≤ 20 := hwin.le
    refine ⟨by omega, ?_⟩
    rintro hfull e' h₄ k' rfl hk' hknown hlt
    obtain ⟨rfl, hs', -⟩ := H₃.of_cons
    have hmem : k' ∈ checks A uid (e' :: h₄) :=
      List.mem_filterMap.mpr ⟨e', List.mem_cons_self, hk'⟩
    rcases hwin.where_ with ⟨hw, hle⟩ | ⟨k, hk, hge⟩
    · refine Event.ignored_of_window hs' (hun e' (by simp)) hk' hknown hlt hw ?_
      have hle' : 0 + (Counters.tally true s 3600 (checks A uid h₂) : Int) ≤
          (e'.pre.db.counters uid).windowFailures := hle
      change 20 ≤ (e'.pre.db.counters uid).windowFailures
      omega
    · -- time would be beyond the window before `e'`
      unfold InOrder at hord
      rw [checks_append, checks_append] at hord
      have hle := (List.pairwise_append.mp hord).2.2 k (List.mem_append_right _ hk) k' hmem
      exact absurd (hge.trans hle) (not_le.mpr hlt)

namespace Siege

def account : UserRow := .sample 1 "m@kohaku.test".toList "the password".toList .maintainer none

def start : World := .start ⟨[account], by decide⟩

/-- A stranger's wrong password, submitted and decided. -/
def guess (i : Nat) : List Label :=
  [.login (i + 1) account.email "a guess".toList [] none i, .decide (i + 1) (.sample 0)]

/-- Ten guesses, and the right password once the lock runs. -/
def labels : List Label :=
  (List.range 10).flatMap guess ++
    [.login 11 account.email "the password".toList [] none 908, .decide 11 (.sample 1)]

def history : List Event := Lts.history (World.step App.sample) start labels

theorem init : start.Init := World.init_start (by decide)

theorem run : World.Run App.sample start history (Lts.last start history) :=
  .of_history (by decide +kernel)

end Siege

/-- In the siege the tenth guess is counted and starts the lock, and nothing more is. -/
theorem lockout_never_overshoots_siege :
    (∀ e ∈ Siege.history, e.NoUnlock) ∧ InOrder App.sample 1 Siege.history ∧
      (checks App.sample 1 Siege.history).getLast? = some ⟨false, 908, .ignored⟩ ∧
      Counters.tally false 0 900 (checks App.sample 1 Siege.history) = 10 := by
  have hun : ∀ e ∈ Siege.history, e.NoUnlock := by decide +kernel
  have hord : InOrder App.sample 1 Siege.history := by unfold InOrder; decide +kernel
  have hlast : (checks App.sample 1 Siege.history).getLast? = some ⟨false, 908, .ignored⟩ := by
    decide +kernel
  have hge : 10 ≤ Counters.tally false 0 900 (checks App.sample 1 Siege.history) := by
    decide +kernel
  have hle := ((lockout_never_overshoots App.sample Siege.start _ _ Siege.init Siege.run).2 hun 1
    hord).1 0 (by decide +kernel)
  exact ⟨hun, hord, hlast, le_antisymm hle hge⟩

end Kohaku
