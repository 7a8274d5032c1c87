import Kohaku.Server.Tables
import Kohaku.SignIn.Devices

/-!
# Devices that pass a lock

A check reads whether its device cookie is known on a reader connection and carries the answer
into its transaction, so the row may be gone when the check is decided. `Tx.Forgets` says which
transactions delete a device cookie; as long as none of them is committed between a check's read
and its decision, a check that passes a running lock holds a cookie that is stored
(`lock_passed_by_known_device`). With one in between, it need not be (`stale_device_passes_lock`).
-/

namespace Kohaku

open Sql Credentials World

/-- The transaction, with the result it returned, deletes the device cookie `k`: it forgets the
account's cookies after its check passed, it is a login that adds a cookie after which ten of the
account come before `k`, or it is retention once `k` has expired. -/
def Tx.Forgets (A : App) (db : Db) (k : DeviceRow) : Tx → Result → Prop
  | decide c (.login device) d, .outcome (.success _) => c.accountId = k.userId ∧
      (device.any fun hash => isKnownDevice db c.accountId hash c.now) = false ∧
      devicesKept ≤ rank newerFirst
        (devicesOf (db.knownDevices.insertNew (newDevice A c.accountId c.now d.device)) c.accountId)
          k
  | decide c (.changePassword _) _, .outcome (.success _)
  | decide c .disableTotp _, .outcome (.success _) => c.accountId = k.userId
  | confirmTotp user _ _ _, .confirmed (.enrolled _) => user.userId = k.userId
  | linkSubmit tokenHash _ now, .linked true =>
    ∃ t ∈ db.tokens, acceptable db tokenHash now t = true ∧ t.userId = some k.userId
  | retentionSignIn now, .unit => k.createdAt ≤ now - deviceSeconds
  | _, _ => False

/-- The device cookie of a check is the row `k`. -/
def Checking.Presents (c : Checking) (k : DeviceRow) : Prop :=
  k.userId = c.accountId ∧ c.attempt.device = some k.tokenHash

/-- The step, unless it is the check's own transaction, commits none that deletes a device cookie
on which a waiting check relies. -/
def Event.SparesDevices (A : App) (e : Event) : Prop :=
  ∀ rid s c work, ⟨rid, .checking s c work⟩ ∈ e.pre.requests → c.verified.knownDevice = true →
    e.label.answers? ≠ some rid → ∀ k ∈ e.pre.db.knownDevices, c.Presents k →
    ∀ tx r, e.Commits A tx r → ¬tx.Forgets A e.pre.db k r

variable {A : App} {db db' : Db} {w₀ w : World} {h : List Event}

/-! ## What is not forgotten -/

theorem mem_loginDevices {uid : Nat} {device : Option Bytes} {now : Time} {token : Vector UInt8 32}
    {k : DeviceRow} (hk : k ∈ db.knownDevices) : k ∈ loginDevices A db uid device now token ↔
      ¬(uid = k.userId ∧ (device.any fun hash => isKnownDevice db uid hash now) = false ∧
        devicesKept ≤ rank newerFirst
          (devicesOf (db.knownDevices.insertNew (newDevice A uid now token)) uid) k) := by
  rw [loginDevices]
  cases hknown : device.any fun hash => isKnownDevice db uid hash now with
  | true =>
    rw [if_pos rfl]
    exact iff_of_true hk fun h => by cases h.2.1
  | false =>
    rw [if_neg Bool.false_ne_true, mem_evictDevices_iff, Table.mem_insertNew,
      and_iff_right (.inl hk)]
    constructor
    · rintro h ⟨hid, -, hle⟩
      exact absurd (h hid.symm) (not_lt.mpr hle)
    · intro h hid
      exact not_le.mp fun hle => h ⟨hid.symm, rfl, hle⟩

/-- A transaction keeps a device cookie unless it deletes it. -/
theorem Effect.device_kept {tx : Tx} {r : Result} {k : DeviceRow} (h : Effect A db tx r db')
    (hk : k ∈ db.knownDevices) : k ∈ db'.knownDevices ↔ ¬tx.Forgets A db k r := by
  have hdel : ∀ {uid : Nat}, k ∈ (db.knownDevices.delete fun d => d.userId = uid) ↔
      ¬uid = k.userId := by
    intro uid
    rw [Table.mem_delete, and_iff_right hk, decide_eq_false_iff_not, eq_comm]
  cases h with
  | touch | logout | endOtherSessions | resetQueued | placeholderQueued | linkRefused | unlock
  | resetPassword | retentionAudit | setDisabled => exact iff_of_true hk id
  | notEnrolled hr =>
    refine iff_of_true hk fun hf => ?_
    unfold Tx.Forgets at hf
    split at hf <;> simp_all
  | refused hr =>
    refine iff_of_true hk fun hf => ?_
    unfold Tx.Forgets at hf
    split at hf <;> simp_all
  | @failed _ _ work =>
    refine iff_of_true hk fun hf => ?_
    cases work <;> exact hf
  | enrolled => exact hdel
  | disableTotp => exact hdel
  | login => exact mem_loginDevices hk
  | changePassword hp =>
    refine Iff.trans ?_ hdel
    rw [← (SecondFactor.sessions hp.factor).2.1]
    rfl
  | startTotp hp | regenerateCodes hp =>
    exact iff_of_true ((SecondFactor.sessions hp.factor).2.1 ▸ hk) id
  | linkConsumed ht hacc hunique hid hu =>
    refine hdel.trans (not_congr ⟨?_, ?_⟩)
    · rintro rfl
      exact ⟨_, ht, hacc, hid⟩
    · rintro ⟨t', ht', hacc', hid'⟩
      rw [hunique t' ht' hacc', hid] at hid'
      exact Option.some.inj hid'
  | retentionSignIn =>
    refine Table.mem_delete.trans ?_
    rw [and_iff_right hk, decide_eq_false_iff_not]
    rfl
  | pick hp => rw [(Mail.pick_mailOnly hp).knownDevices]; exact iff_of_true hk id
  | record => rw [(Mail.record_mailOnly ..).knownDevices]; exact iff_of_true hk id
  | retentionOutbox =>
    simp only [Kohaku.retentionOutbox]
    rw [(Mail.giveUpExpired_mailOnly ..).knownDevices]
    exact iff_of_true hk id

/-! ## The device of a waiting check -/

/-- The device cookie of the check is stored and has not expired for it. -/
def Checking.DeviceKnown (c : Checking) (db : Db) : Prop :=
  ∃ k ∈ db.knownDevices, c.Presents k ∧ c.now - deviceSeconds < k.createdAt

/-- A check that is read as known presents a stored device cookie. -/
theorem deviceKnown_of_checkRead {attempt : Attempt} {now : Time} {uid : Nat} {v : Verified}
    (h : checkRead A db attempt now = some (uid, v)) (hk : v.knownDevice = true) :
    Checking.DeviceKnown ⟨attempt, now, uid, v⟩ db := by
  obtain ⟨u, -, -, -, hv, -⟩ := checkRead_spec h
  rw [hk] at hv
  cases hdev : attempt.device with
  | none => simp [hdev] at hv
  | some hash =>
    rw [hdev, Option.any_some] at hv
    obtain ⟨k, hmem, hp⟩ := Table.any_eq_true.mp hv.symm
    simp only [Bool.and_eq_true, decide_eq_true_eq] at hp
    obtain ⟨⟨hid, rfl⟩, hnew⟩ := hp
    exact ⟨k, hmem, ⟨hid, hdev⟩, hnew⟩

/-- Every waiting check that was read as known presents a stored device cookie. -/
def World.DevicesStored (w : World) : Prop :=
  ∀ rid s c work, ⟨rid, .checking s c work⟩ ∈ w.requests → c.verified.knownDevice = true →
    c.DeviceKnown w.db

theorem Event.devicesStored {e : Event} (hs : e.pre.step A e.label = some e.post)
    (hI : e.pre.DevicesStored) (hspare : e.SparesDevices A) : e.post.DevicesStored := by
  intro rid s c work hq hk
  rcases Event.enters hs hq with hq' | he
  · obtain ⟨k, hmem, hpres, hnew⟩ := hI rid s c work hq' hk
    refine ⟨k, ?_, hpres, hnew⟩
    rcases Event.commits_or_same hs with hsame | ⟨tx, r, hc⟩
    · rw [hsame]
      exact hmem
    · refine (hc.effect.device_kept hmem).mpr (hspare rid s c work hq' hk ?_ k hmem hpres tx r hc)
      exact fun hl => hc.answered hs hl hq rfl
  · -- the flag was read in this very state
    rw [Event.same_of_enters hs hq he (by simp)]
    generalize e.label = l at he
    cases he with
    | login _ hread | reauth _ hread => exact deviceKnown_of_checkRead hread hk

theorem World.Run.devicesStored (hinit : w₀.Init) (H : World.Run A w₀ h w)
    (hspare : ∀ e ∈ h, e.SparesDevices A) : w.DevicesStored := by
  induction H with
  | nil =>
    intro rid s c work hq
    rw [hinit.requests] at hq
    exact absurd hq AutoTable.not_mem_empty
  | @snoc h m l w' H hs ih =>
    have hm := ih fun e he => hspare e (List.mem_append_left _ he)
    exact Event.devicesStored (e := ⟨m, l, w'⟩) hs hm (hspare _ (by simp))

/-- In every run in which no waiting check loses the device cookie it relies on, a check that
passes while the account is locked for its clock value presents a device cookie of the account
that is stored and unexpired in the state its transaction reads. -/
theorem lock_passed_by_known_device (A : App) (w₀ w : World) (h : List Event) (hinit : w₀.Init)
    (H : World.Run A w₀ h w) (hspare : ∀ e ∈ h, e.SparesDevices A) :
    ∀ e ∈ h, ∀ c work d value u until_,
      e.Commits A (.decide c work d) (.outcome (.success value)) →
      e.pre.db.user? c.accountId = some u → u.lockedUntil = some until_ → c.now < until_ →
      ∃ k ∈ e.pre.db.knownDevices, k.userId = c.accountId ∧ c.attempt.device = some k.tokenHash ∧
        c.now - deviceSeconds < k.createdAt := by
  intro e he c work d value u until_ hc hu hlock hlt
  obtain ⟨h₁, h₂, rfl, H₁, -, -⟩ := H.of_mem he
  have hknown : c.verified.knownDevice = true := by
    obtain ⟨u', db₁, hp⟩ := hc.effect.passed
    have hb := hp.unblocked
    rw [show u' = u from Option.some.inj (hp.user.symm.trans hu)] at hb
    by_contra hk
    have hfree : u.locked c.now = false := by simpa [Account.blocked, hk] using hb
    simp only [Account.locked, hlock, Option.any_some, decide_eq_false_iff_not] at hfree
    exact hfree hlt
  have hI := World.Run.devicesStored hinit H₁ fun e he => hspare e (List.mem_append_left _ he)
  have hf := hc.fires
  generalize e.label = l at hf
  cases hf with
  | decide hq =>
    obtain ⟨k, hmem, hpres, hnew⟩ := hI _ _ _ _ hq hknown
    exact ⟨k, hmem, hpres.1, hpres.2, hnew⟩

/-- A check that relies on its device cookie. -/
def Stage.reliesOnDevice : Stage → Bool
  | .checking _ c _ => c.verified.knownDevice
  | _ => false

/-- With no other check waiting on a device cookie, a step spares them. -/
theorem Event.sparesDevices_of_alone {e : Event}
    (h : ∀ q ∈ e.pre.requests.rows, q.stage.reliesOnDevice = true →
      e.label.answers? = some q.rid) : e.SparesDevices A := by
  intro rid s c work hq hk hne
  exact absurd (h _ hq hk) hne

namespace KnownDevice

def account : UserRow := .sample 1 "m@kohaku.test".toList "the password".toList .maintainer none

def start : World := .start ⟨[account], by decide⟩

/-- The hash of the device cookie that the first login sets. -/
def device : Bytes := asBytes (tokenText App.sample.base64 (Draws.sample 1).device)

/-- Ten failed logins lock the account; a login with the device cookie passes. -/
def labels : List Label :=
  [.login 1 account.email "the password".toList [] none 0, .decide 1 (.sample 1)] ++
  (List.range 10).flatMap (fun i =>
    [.login (i + 4) account.email "a guess".toList [] none 20, .decide (i + 4) (.sample 4)]) ++
  [.login 20 account.email "the password".toList [] (some device) 30, .decide 20 (.sample 5)]

def history : List Event := Lts.history (World.step App.sample) start labels

/-- The step that decides the login with the cookie. -/
def last : Event := history.getLast (by decide)

/-- The login with the cookie as it waits. -/
def check : Checking where
  attempt := ⟨.email account.email, "the password".toList, [], some device⟩
  now := 30
  accountId := 1
  verified := ⟨some "the password".toList, true, []⟩

theorem init : start.Init := World.init_start (by decide)

theorem run : World.Run App.sample start history (Lts.last start history) :=
  .of_history (by decide)

theorem last_mem : last ∈ history := List.getLast_mem _

theorem spares : ∀ e ∈ history, e.SparesDevices App.sample := by
  have hall : ∀ e ∈ history, ∀ q ∈ e.pre.requests.rows, q.stage.reliesOnDevice = true →
      e.label.answers? = some q.rid := by decide
  exact fun e he => Event.sparesDevices_of_alone (hall e he)

end KnownDevice

/-- The owner passes the lock with the cookie of the first login. -/
theorem lock_passed_with_cookie :
    (∀ e ∈ KnownDevice.history, e.SparesDevices App.sample) ∧
      ∃ k ∈ KnownDevice.last.pre.db.knownDevices, k.userId = 1 ∧
        k.tokenHash = KnownDevice.device := by
  refine ⟨KnownDevice.spares, ?_⟩
  have hs := KnownDevice.run.step_of_mem KnownDevice.last_mem
  have hlock : (KnownDevice.last.pre.db.user? 1).bind (fun u => u.lockedUntil) = some 920 := by
    decide
  obtain ⟨u, hu, hl⟩ := Option.bind_eq_some_iff.mp hlock
  obtain ⟨k, hk, hid, hdev, -⟩ := lock_passed_by_known_device App.sample KnownDevice.start _ _
    KnownDevice.init KnownDevice.run KnownDevice.spares KnownDevice.last KnownDevice.last_mem
    KnownDevice.check (.login (some KnownDevice.device)) (.sample 5)
    (.signedIn (tokenText App.sample.base64 (Draws.sample 5).token) none) u 920
    (Event.commits_of_eval hs (by decide) (by decide)) hu hl (by decide)
  exact ⟨k, hk, hid, (Option.some.inj hdev).symm⟩

namespace StaleDevice

open KnownDevice (account start device)

/-- The second login reads its device as known; before it is decided, `disable_totp` forgets the
account's devices and ten failed logins lock the account. -/
def labels : List Label :=
  [.login 1 account.email "the password".toList [] none 0, .decide 1 (.sample 1),
    .current 2 (asBytes (tokenText App.sample.base64 (Draws.sample 1).token)) 10,
    .post 2 (Draws.sample 1).csrf.toList (.disableTotp "the password".toList []) none 10
      (.sample 2),
    .login 3 account.email "the password".toList [] (some device) 20, .decide 2 (.sample 3)] ++
  (List.range 10).flatMap (fun i =>
    [.login (i + 4) account.email "a guess".toList [] none 20, .decide (i + 4) (.sample 4)]) ++
  [.decide 3 (.sample 5)]

def history : List Event := Lts.history (World.step App.sample) start labels

/-- The step that decides the second login. -/
def last : Event := history.getLast (by decide)

/-- The second login as it waits. -/
def check : Checking where
  attempt := ⟨.email account.email, "the password".toList, [], some device⟩
  now := 20
  accountId := 1
  verified := ⟨some "the password".toList, true, []⟩

theorem run : World.Run App.sample start history (Lts.last start history) :=
  .of_history (by decide)

theorem last_mem : last ∈ history := List.getLast_mem _

end StaleDevice

/-- The second login passes the lock although the account has no device cookie any more. -/
theorem stale_device_passes_lock :
    KnownDevice.start.Init ∧ StaleDevice.last ∈ StaleDevice.history ∧
      World.Run App.sample KnownDevice.start StaleDevice.history
        (Lts.last KnownDevice.start StaleDevice.history) ∧
      (∃ value, StaleDevice.last.Commits App.sample
        (.decide StaleDevice.check (.login (some KnownDevice.device)) (.sample 5))
        (.outcome (.success value))) ∧
      (∃ u, StaleDevice.last.pre.db.user? StaleDevice.check.accountId = some u ∧
        ∃ until_, u.lockedUntil = some until_ ∧ StaleDevice.check.now < until_) ∧
      ¬∃ k ∈ StaleDevice.last.pre.db.knownDevices, k.userId = StaleDevice.check.accountId ∧
        StaleDevice.check.attempt.device = some k.tokenHash ∧
        StaleDevice.check.now - deviceSeconds < k.createdAt := by
  have hs := StaleDevice.run.step_of_mem StaleDevice.last_mem
  refine ⟨KnownDevice.init, StaleDevice.last_mem, StaleDevice.run,
    ⟨.signedIn (tokenText App.sample.base64 (Draws.sample 5).token)
      (some (tokenText App.sample.base64 (Draws.sample 5).device)), ?_⟩, ?_,
    ?_⟩
  · exact Event.commits_of_eval hs (by decide) (by decide)
  · have hlock : (StaleDevice.last.pre.db.user? 1).bind (fun u => u.lockedUntil) = some 920 := by
      decide
    obtain ⟨u, hu, hl⟩ := Option.bind_eq_some_iff.mp hlock
    exact ⟨u, hu, 920, hl, by decide⟩
  · have hnone : StaleDevice.last.pre.db.knownDevices.rows = [] := by decide
    rintro ⟨k, hk, -⟩
    rw [Table.mem_def, hnone] at hk
    cases hk

end Kohaku
