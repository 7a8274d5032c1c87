import Kohaku.Reset.Tokens
import Kohaku.SignIn.Lockout

/-!
# Lockout mails

`lockout_mailed_at` is the time of the account's last lockout mail and only goes up: it is set when
a lock starts a day or more after it. Whether to mail is read back from the updated row, by
comparing the column with the clock. The comparison also holds when the last mail was enqueued at
the very same clock value, which happens once `admin unlock` has lifted the lock of that mail.
-/

namespace Kohaku

open Sql Credentials
open Lockout (Counters)

/-- The lockout mails of `uid` that were enqueued on the way from `db` to `db'`. -/
def newLockouts (db db' : Db) (uid : Nat) : List OutboxRow :=
  db'.outbox.rows.filter fun row =>
    db.outbox.seq < row.id && (row.kind = Mail.lockout.name && row.userId = some uid)

/-- The lockout mails of `uid` that the step enqueued. -/
def Event.lockoutMails (e : Event) (uid : Nat) : List OutboxRow :=
  newLockouts e.pre.db e.post.db uid

/-- The time of the account's last lockout mail. -/
def Db.mailedAt? (db : Db) (uid : Nat) : Option Time :=
  (db.user? uid).bind fun u => u.lockoutMailedAt

/-- When a check without a device cookie fails as the tenth or a later one in a row, at the clock
value of the account's last lockout mail, the lock of that mail has not been lifted. -/
def Event.LockStands (A : App) (e : Event) : Prop :=
  ∀ c work d u, e.Commits A (.decide c work d) (.outcome .failure) →
    c.verified.knownDevice = false → e.pre.db.user? c.accountId = some u →
    lockAfter ≤ u.failedLogins + 1 → u.lockoutMailedAt = some c.now → u.locked c.now = true

/-- What a transaction does about lockout mails of an account. -/
inductive LockoutStep (A : App) (db : Db) (uid : Nat) (tx : Tx) (r : Result) (db' : Db) : Prop
  | quiet : newLockouts db db' uid = [] → db'.mailedAt? uid = db.mailedAt? uid →
    ((∀ email now, tx ≠ .unlock email now) →
      (db'.counters uid).lockedUntil = (db.counters uid).lockedUntil) →
      LockoutStep A db uid tx r db'
  | locks : tx = .decide c work d → r = .outcome .failure → c.accountId = uid →
      db.user? uid = some u →
    u.locked c.now = false → lockAfter ≤ u.failedLogins + 1 → c.verified.knownDevice = false →
    db' = afterFailure A db u false c.now → LockoutStep A db uid tx r db'

variable {A : App} {db db' : Db} {tx : Tx} {r : Result} {w₀ w : World} {h : List Event} {e : Event}
  {uid : Nat} {u : UserRow} {now : Time}

/-! ## New rows -/

/-- Marking and deleting rows enqueues nothing. -/
theorem newLockouts_of_back (hb : OutboxBack db.outbox db'.outbox) :
    newLockouts db db' uid = [] := by
  apply List.filter_eq_nil_iff.mpr
  intro row hrow
  have hle := db'.outbox.le_seq row hrow
  rw [hb.seq] at hle
  simp [hle.not_gt]

theorem newLockouts_insertNew {mk : Nat → OutboxRow} {hmk : ∀ n, (mk n).id = n}
    (hout : db'.outbox = db.outbox.insertNew mk hmk) :
    newLockouts db db' uid =
      if (mk (db.outbox.seq + 1)).kind = Mail.lockout.name ∧
        (mk (db.outbox.seq + 1)).userId = some uid then [mk (db.outbox.seq + 1)] else [] := by
  have hold : (db.outbox.rows.filter fun row =>
      db.outbox.seq < row.id && (row.kind = Mail.lockout.name && row.userId = some uid)) = [] :=
    newLockouts_of_back (.refl fun _ => rfl)
  unfold newLockouts
  rw [hout]
  change List.filter _ (db.outbox.rows ++ [mk (db.outbox.seq + 1)]) = _
  rw [List.filter_append, hold, List.nil_append, List.filter_singleton, hmk]
  simp

/-- A step other than a failed check enqueues no lockout mail. -/
theorem Effect.newLockouts (h : Effect A db tx r db') (hr : r ≠ .outcome .failure) :
    newLockouts db db' uid = [] := by
  have hother : ∀ (mk : Nat → OutboxRow) (hmk : ∀ n, (mk n).id = n),
      db'.outbox = db.outbox.insertNew mk hmk → (∀ n, (mk n).kind ≠ Mail.lockout.name) →
      Kohaku.newLockouts db db' uid = [] := by
    intro mk hmk hout hne
    rw [newLockouts_insertNew hout, if_neg fun h => hne _ h.1]
  have hchanged : Mail.passwordChanged.name ≠ Mail.lockout.name := by decide
  have hreset : Mail.resetLink.name ≠ Mail.lockout.name := by decide
  cases h with
  | touch | logout | notEnrolled | enrolled | endOtherSessions | refused | linkRefused | unlock
  | resetPassword | retentionAudit | retentionSignIn | setDisabled =>
    exact newLockouts_of_back (.refl fun _ => rfl)
  | login hp | startTotp hp | disableTotp hp | regenerateCodes hp =>
    apply newLockouts_of_back
    rw [← (SecondFactor.sessions hp.factor).2.2.2]
    exact .refl fun _ => rfl
  | failed => exact absurd rfl hr
  | @changePassword c _ _ _ _ _ _ hp =>
    apply hother (fun n => (passwordChangedMail A c.accountId c.now).row c.now
      (some c.accountId) none n) (by intro _; rfl)
    · rw [← (SecondFactor.sessions hp.factor).2.2.2]
      rfl
    · exact fun _ => hchanged
  | linkConsumed => exact hother _ (by intro _; rfl) rfl fun _ => hchanged
  | placeholderQueued | resetQueued => exact hother _ (by intro _; rfl) rfl fun _ => hreset
  | pick hp => exact newLockouts_of_back (pick_tokens hp).2
  | record => exact newLockouts_of_back (record_outbox ..)
  | retentionOutbox => exact newLockouts_of_back ((giveUpAll_outbox _).trans .delete)

/-- It moves neither the account's stamp nor, apart from `unlock`, its lock. -/
theorem Effect.mailedAt? (h : Effect A db tx r db') (hr : r ≠ .outcome .failure) :
    db'.mailedAt? uid = db.mailedAt? uid ∧ ((∀ email now, tx ≠ .unlock email now) →
      (db'.counters uid).lockedUntil = (db.counters uid).lockedUntil) := by
  cases hu : db.user? uid with
  | none => simp [Db.mailedAt?, Db.counters, hu, h.user?_none hu]
  | some u =>
    obtain ⟨u', hu', hstep⟩ := h.row hu
    simp only [Db.mailedAt?, Db.counters, hu, hu', Option.bind_some]
    cases hstep with
    | same | enrolled | reset | setDisabled => exact ⟨rfl, fun _ => rfl⟩
    | unlock => exact ⟨rfl, fun hun => absurd rfl (hun _ _)⟩
    | counted => exact absurd rfl hr
    | @passed c _ _ _ work => cases work <;> exact ⟨rfl, fun _ => rfl⟩

/-! ## Locks -/

theorem user?_afterFailure (A : App) (k : Bool) (now : Time) (hu : db.user? uid = some u) :
    (afterFailure A db u k now).user? uid = some (counted k now u) := by
  change (db.updateUser u.id (counted k now) (counted_id _)).user? uid = _
  rw [Db.id_of_user? hu, Db.user?_updateUser_self, hu]
  rfl

theorem user?_afterFailure_of_ne (A : App) (db : Db) (k : Bool) (now : Time) (hne : uid ≠ u.id) :
    (afterFailure A db u k now).user? uid = db.user? uid := by
  change (db.updateUser u.id (counted k now) (counted_id _)).user? uid = _
  exact Db.user?_updateUser_of_ne hne

/-- A failure that starts no lock is not mailed about: the lock it reads back is an old one. -/
theorem mailsLockout_of_lt (hl : u.locked now = false) (hlt : u.failedLogins + 1 < lockAfter) :
    mailsLockout now u = false := by
  have hcount : (countLogin now u).lockedUntil = u.lockedUntil := by
    unfold countLogin
    rw [if_neg (by omega)]
  unfold mailsLockout
  rw [hcount, Bool.and_eq_false_iff]
  left
  rw [decide_eq_false_iff_not]
  intro heq
  simp [Account.locked, heq, lockSeconds] at hl

/-- One that starts a lock is mailed about unless the last mail is less than a day old; a mail at
the same clock value does not count. -/
theorem mailsLockout_of_le (now : Time) (hle : lockAfter ≤ u.failedLogins + 1) :
    mailsLockout now u = ((u.lockoutMailedAt.all fun mailed => mailed ≤ now - lockoutMailSeconds) ||
      decide (u.lockoutMailedAt = some now)) := by
  unfold mailsLockout countLogin
  rw [if_pos hle]
  simp only [decide_true, Bool.true_and]
  cases hall : u.lockoutMailedAt.all fun mailed =>
    Decidable.decide (mailed ≤ now - lockoutMailSeconds) with
  | true => simp
  | false => simp

/-- The columns about the lock after a failure that starts none. -/
theorem counted_columns {k : Bool} (now : Time) (h : k = true ∨ u.failedLogins + 1 < lockAfter) :
    (counted k now u).lockoutMailedAt = u.lockoutMailedAt ∧
      (counted k now u).lockedUntil = u.lockedUntil := by
  cases k with
  | true =>
    simp only [counted, if_true, countDevice]
    split <;> exact ⟨rfl, rfl⟩
  | false =>
    have hlt : u.failedLogins + 1 < lockAfter := h.resolve_left Bool.false_ne_true
    simp only [counted, Bool.false_eq_true, if_false, countLogin]
    rw [if_neg (by omega)]
    exact ⟨rfl, rfl⟩

/-- A failure that starts no lock leaves the account's lock and stamp alone and is not mailed
about. -/
theorem LockoutStep.of_unlocked {k : Bool} (hu : db.user? uid = some u)
    (hb : u.blocked k now = false) (h : k = true ∨ u.failedLogins + 1 < lockAfter) :
    LockoutStep A db uid tx r (afterFailure A db u k now) := by
  have hcol := counted_columns now h
  have hu' := user?_afterFailure A k now hu
  have hmail : (!k && mailsLockout now u) = false := by
    cases k with
    | true => rfl
    | false =>
      have hl : u.locked now = false := by simpa [Account.blocked] using hb
      rw [mailsLockout_of_lt hl (h.resolve_left Bool.false_ne_true)]
      rfl
  refine .quiet ?_ ?_ fun _ => ?_
  · apply newLockouts_of_back
    simp only [afterFailure, hmail, Bool.false_eq_true, if_false]
    exact .refl fun _ => rfl
  · simp only [Db.mailedAt?, hu, hu', Option.bind_some, hcol.1]
  · simp only [Db.counters, hu, hu', UserRow.counters, hcol.2]

/-- A failure of another account concerns neither. -/
theorem LockoutStep.of_ne {k : Bool} (hne : uid ≠ u.id) :
    LockoutStep A db uid tx r (afterFailure A db u k now) := by
  have hu' := user?_afterFailure_of_ne A db k now hne
  refine .quiet ?_ ?_ fun _ => ?_
  · cases hm : !k && mailsLockout now u with
    | false =>
      apply newLockouts_of_back
      simp only [afterFailure, hm, Bool.false_eq_true, if_false]
      exact .refl fun _ => rfl
    | true =>
      have hout : (afterFailure A db u k now).outbox =
          db.outbox.insertNew ((lockoutMail A u.id now).row now (some u.id) none) := by
        simp only [afterFailure, hm, if_true]
      rw [newLockouts_insertNew hout, if_neg]
      rintro ⟨-, hid⟩
      exact hne (Option.some.inj hid).symm
  · rw [Db.mailedAt?, hu', Db.mailedAt?]
  · rw [Db.counters, hu', Db.counters]

theorem Effect.lockoutStep (h : Effect A db tx r db') (uid : Nat) :
    LockoutStep A db uid tx r db' := by
  by_cases hr : r = .outcome .failure
  · subst hr
    cases h with
    | refused => exact .quiet (newLockouts_of_back (.refl fun _ => rfl)) rfl fun _ => rfl
    | @failed u c work d hu hb =>
      by_cases hid : c.accountId = uid
      · subst hid
        cases hk : c.verified.knownDevice with
        | true =>
          rw [hk] at hb
          exact .of_unlocked hu hb (.inl rfl)
        | false =>
          rw [hk] at hb
          by_cases hlt : u.failedLogins + 1 < lockAfter
          · exact .of_unlocked hu hb (.inr hlt)
          · exact .locks rfl rfl rfl hu (by simpa [Account.blocked] using hb) (by omega) hk rfl
      · apply LockoutStep.of_ne
        rw [Db.id_of_user? hu]
        exact fun h => hid h.symm
  · exact .quiet (h.newLockouts hr) (h.mailedAt? hr).1 (h.mailedAt? hr).2

/-- A failure that starts a lock: the mail, the stamp and the lock after it. -/
theorem newLockouts_of_locks (now : Time) (hu : db.user? uid = some u)
    (hle : lockAfter ≤ u.failedLogins + 1) : newLockouts db (afterFailure A db u false now) uid =
        (if mailsLockout now u then
          [(lockoutMail A uid now).row now (some uid) none (db.outbox.seq + 1)] else []) ∧
      (afterFailure A db u false now).mailedAt? uid =
        (if u.lockoutMailedAt.all fun mailed => mailed ≤ now - lockoutMailSeconds then some now
          else u.lockoutMailedAt) := by
  obtain rfl := Db.id_of_user? hu
  have hu' := user?_afterFailure A false now hu
  constructor
  · cases hm : mailsLockout now u with
    | false =>
      apply newLockouts_of_back
      simp only [afterFailure, hm, Bool.and_false, Bool.false_eq_true, if_false]
      exact .refl fun _ => rfl
    | true =>
      have hout : (afterFailure A db u false now).outbox =
          db.outbox.insertNew ((lockoutMail A u.id now).row now (some u.id) none) := by
        simp only [afterFailure, hm, Bool.not_false, Bool.and_true, if_true]
      rw [newLockouts_insertNew hout, if_pos ⟨rfl, rfl⟩]
      rfl
  · simp only [Db.mailedAt?, hu', Option.bind_some, counted, Bool.false_eq_true,
      if_false, countLogin]
    rw [if_pos hle]

/-! ## Runs -/

/-- The step starts a lock of `uid` at the time `now`. -/
def Event.StartsLock (A : App) (e : Event) (uid : Nat) (now : Time) : Prop :=
  (∃ k, e.check? A uid = some k ∧ k.now = now) ∧
    (e.post.db.counters uid).lockedUntil ≠ (e.pre.db.counters uid).lockedUntil

/-- The step enqueues the lockout mail `row` of `uid` and no other. The account was unlocked, its
last mail was a day old or of the same clock value, and the stamp is now the time of the new one. -/
structure Event.Mails (A : App) (e : Event) (uid : Nat) (row : OutboxRow) : Prop where
  mails : e.lockoutMails uid = [row]
  stamp : e.post.db.mailedAt? uid = some row.queuedAt
  check : ∃ c work d u, e.Commits A (.decide c work d) (.outcome .failure) ∧ c.accountId = uid ∧
    c.verified.knownDevice = false ∧ c.now = row.queuedAt ∧ e.pre.db.user? uid = some u ∧
    lockAfter ≤ u.failedLogins + 1 ∧ u.locked row.queuedAt = false ∧
    ((u.lockoutMailedAt.all fun mailed => mailed ≤ row.queuedAt - lockoutMailSeconds) = true ∨
      u.lockoutMailedAt = some row.queuedAt)

/-- A step enqueues one lockout mail of an account or none; if it starts a lock and enqueues none,
the last mail is less than a day old. -/
theorem Event.mails_cases (hs : e.pre.step A e.label = some e.post) (uid : Nat) :
    (∃ row, e.Mails A uid row) ∨
      e.lockoutMails uid = [] ∧ e.post.db.mailedAt? uid = e.pre.db.mailedAt? uid ∧
        ∀ now, e.StartsLock A uid now →
          ∃ mailed, e.pre.db.mailedAt? uid = some mailed ∧ now - lockoutMailSeconds < mailed := by
  rcases Event.commits_or_same hs with hsame | ⟨tx, r, hc⟩
  · right
    rw [Event.lockoutMails, hsame]
    refine ⟨newLockouts_of_back (.refl fun _ => rfl), rfl, fun now hl => absurd ?_ hl.2⟩
    rw [hsame]
  cases hc.effect.lockoutStep uid with
  | quiet hnil hstamp hlock =>
    refine .inr ⟨hnil, hstamp, fun now hl => absurd (hlock ?_) hl.2⟩
    rintro email t rfl
    obtain ⟨k, hk, -⟩ := hl.1
    obtain ⟨c, work, d, o, hc', -⟩ := Event.commits_of_check? hs hk
    cases (hc.unique hc').1
  | @locks c work d u htx hr hid hu hl hle hk hdb =>
    subst htx hr
    have hnew := newLockouts_of_locks (A := A) c.now hu hle
    rw [← hdb, mailsLockout_of_le c.now hle] at hnew
    have hpre : e.pre.db.mailedAt? uid = u.lockoutMailedAt := by rw [Db.mailedAt?, hu]; rfl
    cases hall : u.lockoutMailedAt.all fun mailed => mailed ≤ c.now - lockoutMailSeconds with
    | true =>
      rw [hall] at hnew
      exact .inl ⟨_, hnew.1, hnew.2, c, work, d, u, hc, hid, hk, rfl, hu, hle, hl, .inl hall⟩
    | false =>
      rw [hall, Bool.false_or] at hnew
      by_cases hsame : u.lockoutMailedAt = some c.now
      · rw [decide_eq_true hsame] at hnew
        exact .inl ⟨_, hnew.1, hnew.2.trans hsame, c, work, d, u, hc, hid, hk, rfl, hu, hle, hl,
          .inr hsame⟩
      · rw [decide_eq_false hsame] at hnew
        refine .inr ⟨hnew.1, hnew.2.trans hpre.symm, fun now hl => ?_⟩
        obtain ⟨⟨k, hk, rfl⟩, -⟩ := hl
        rw [Event.check?_of_commits hc, if_pos hid] at hk
        cases hk
        rw [hpre]
        cases hm : u.lockoutMailedAt with
        | none =>
          rw [hm] at hall
          cases hall
        | some mailed =>
          rw [hm, Option.all_some, decide_eq_false_iff_not, not_le] at hall
          exact ⟨mailed, rfl, hall⟩

/-- The stamp is the time of a lockout mail of the run, and no such mail is later. -/
theorem World.Run.stamp (hinit : w₀.Init) (H : World.Run A w₀ h w) (uid : Nat) :
    (∀ mailed, w.db.mailedAt? uid = some mailed →
      ∃ e ∈ h, ∃ row ∈ e.lockoutMails uid, row.queuedAt = mailed) ∧
    ∀ e ∈ h, ∀ row ∈ e.lockoutMails uid, ∃ mailed, w.db.mailedAt? uid = some mailed ∧
      row.queuedAt ≤ mailed := by
  induction H with
  | nil =>
    refine ⟨fun mailed hm => ?_, by simp⟩
    obtain ⟨u, hu, hm⟩ := Option.bind_eq_some_iff.mp hm
    rw [(hinit.counters u (Db.mem_of_user? hu)).2.2.2.2] at hm
    cases hm
  | @snoc h t l u H hs ih =>
    rcases Event.mails_cases (e := ⟨t, l, u⟩) hs uid with ⟨row, hmail⟩ | ⟨hnil, hstamp, -⟩
    · have hpost : u.db.mailedAt? uid = some row.queuedAt := hmail.stamp
      refine ⟨fun mailed hm => ?_, fun e he row' hrow' => ⟨row.queuedAt, hpost, ?_⟩⟩
      · rw [hpost] at hm
        cases hm
        refine ⟨⟨t, l, u⟩, by simp, row, ?_, rfl⟩
        rw [hmail.mails]
        exact List.mem_singleton_self row
      · rcases List.mem_append.mp he with he | he
        · -- an older mail, at most as late as the stamp before
          obtain ⟨mailed, hm, hle⟩ := ih.2 e he row' hrow'
          apply hle.trans
          obtain ⟨c, work, d, v, -, -, -, -, hv, -, -, hcase⟩ := hmail.check
          have hpre : t.db.mailedAt? uid = v.lockoutMailedAt := by
            rw [Db.mailedAt?, show t.db.user? uid = some v from hv]
            rfl
          rw [hpre] at hm
          rcases hcase with hall | hsame
          · rw [hm, Option.all_some, decide_eq_true_eq] at hall
            exact hall.trans (Int.sub_le_self _ (by decide))
          · rw [hm] at hsame
            exact (Option.some.inj hsame).le
        · rw [List.mem_singleton.mp he, hmail.mails, List.mem_singleton] at hrow'
          rw [hrow']
    · have hpost : u.db.mailedAt? uid = t.db.mailedAt? uid := hstamp
      rw [hpost]
      refine ⟨fun mailed hm => ?_, fun e he row hrow => ?_⟩
      · obtain ⟨e, he, hrow⟩ := ih.1 mailed hm
        exact ⟨e, List.mem_append_left _ he, hrow⟩
      · rcases List.mem_append.mp he with he | he
        · exact ih.2 e he row hrow
        · rw [List.mem_singleton.mp he, hnil] at hrow
          cases hrow

/-- A mail that is enqueued later than another is so by a day. -/
theorem Event.Mails.day {row row' : OutboxRow} {mailed : Time} (hmail : e.Mails A uid row')
    (hcond : e.LockStands A) (hm : e.pre.db.mailedAt? uid = some mailed)
    (hle : row.queuedAt ≤ mailed) : row.queuedAt + 86400 ≤ row'.queuedAt := by
  obtain ⟨c, work, d, u, hc, hid, hk, hnow, hu, hlast, hl, hcase⟩ := hmail.check
  rw [Db.mailedAt?, hu, Option.bind_some] at hm
  rcases hcase with hall | hsame
  · rw [hm, Option.all_some, decide_eq_true_eq] at hall
    exact Int.add_le_of_le_sub_right (hle.trans hall)
  · -- the lock of the last mail would still stand
    have hlocked := hcond c work d u hc hk (hid ▸ hu) hlast (hnow ▸ hsame)
    rw [hnow, hl] at hlocked
    cases hlocked

/-- If no check fails as the tenth in a row at the clock value of the account's last lockout mail
after its lock was lifted, lockout mails of an account are a day apart, and a lock that starts
without such a mail in the day before enqueues exactly one. -/
theorem lockout_mail_once_a_day (A : App) (w₀ w : World) (h : List Event) (hinit : w₀.Init)
    (H : World.Run A w₀ h w) (hcond : ∀ e ∈ h, e.LockStands A) (uid : Nat) :
    (∀ h₁ e h₂ e' h₃, h = h₁ ++ e :: (h₂ ++ e' :: h₃) → ∀ row ∈ e.lockoutMails uid,
      ∀ row' ∈ e'.lockoutMails uid, row.queuedAt + 86400 ≤ row'.queuedAt) ∧
    (∀ e ∈ h, (e.lockoutMails uid).length ≤ 1) ∧
    ∀ h₁ e h₂ now, h = h₁ ++ e :: h₂ → e.StartsLock A uid now →
      (∀ e' ∈ h₁, ∀ row ∈ e'.lockoutMails uid, ¬now - 86400 < row.queuedAt) →
      ∃ row, e.lockoutMails uid = [row] ∧ row.queuedAt = now := by
  refine ⟨?_, ?_, ?_⟩
  · rintro h₁ e h₂ e' h₃ rfl row hrow row' hrow'
    rw [show h₁ ++ e :: (h₂ ++ e' :: h₃) = (h₁ ++ e :: h₂) ++ e' :: h₃ by simp] at H
    obtain ⟨H', hs', -⟩ := H.split
    obtain ⟨mailed, hm, hle⟩ := (World.Run.stamp hinit H' uid).2 e (by simp) row hrow
    rcases Event.mails_cases hs' uid with ⟨row'', hmail⟩ | ⟨hnil, -⟩
    · rw [hmail.mails, List.mem_singleton] at hrow'
      subst hrow'
      exact hmail.day (hcond e' (by simp)) hm hle
    · rw [hnil] at hrow'
      cases hrow'
  · intro e he
    rcases Event.mails_cases (H.step_of_mem he) uid with ⟨row, hmail⟩ | ⟨hnil, -⟩
    · rw [hmail.mails]
      exact le_rfl
    · rw [hnil]
      exact Nat.zero_le _
  · rintro h₁ e h₂ now rfl hlock hnone
    obtain ⟨H₁, hs, -⟩ := H.split
    rcases Event.mails_cases hs uid with ⟨row, hmail⟩ | ⟨-, -, hsilent⟩
    · refine ⟨row, hmail.mails, ?_⟩
      obtain ⟨c, work, d, u, hc, hid, -, hnow, -⟩ := hmail.check
      obtain ⟨⟨k, hk, rfl⟩, -⟩ := hlock
      rw [Event.check?_of_commits hc, if_pos hid] at hk
      cases hk
      exact hnow.symm
    · obtain ⟨mailed, hm, hlt⟩ := hsilent now hlock
      obtain ⟨e', he', row, hrow, hq⟩ := (World.Run.stamp hinit H₁ uid).1 mailed hm
      rw [← hq] at hlt
      exact absurd hlt (hnone e' he' row hrow)

/-- A check of every request in progress meets the condition. -/
theorem Event.lockStands_of_all (hall : e.pre.requests.rows.all (fun q =>
    match q.stage with
    | .checking _ c _ => (e.pre.db.user? c.accountId).all fun u =>
        u.lockoutMailedAt ≠ some c.now || u.locked c.now
    | _ => true) = true) : e.LockStands A := by
  intro c work d u hc _ hu _ hm
  have hf := hc.fires
  generalize e.label = l at hf
  cases hf with
  | decide hq =>
    have h := List.all_eq_true.mp hall _ hq
    simpa [hu, hm] using h

namespace Siege

/-- The tenth guess is decided. -/
def tenth : Event := history.get ⟨19, by decide⟩

theorem cut : history = history.take 19 ++ tenth :: history.drop 20 := by
  rw [tenth, List.get_eq_getElem, List.getElem_cons_drop, List.take_append_drop]

theorem startsLock : tenth.StartsLock App.sample 1 9 :=
  ⟨⟨⟨false, 9, .counted⟩, by decide, rfl⟩, by decide⟩

end Siege

/-- In the siege the lock that the tenth guess starts is mailed about once. -/
theorem siege_mails_once :
    (∀ e ∈ Siege.history, e.LockStands App.sample) ∧
      ∃ row, Siege.tenth.lockoutMails 1 = [row] ∧ row.queuedAt = 9 := by
  have hall : ∀ e ∈ Siege.history, e.pre.requests.rows.all (fun q =>
      match q.stage with
      | .checking _ c _ => (e.pre.db.user? c.accountId).all fun u =>
          u.lockoutMailedAt ≠ some c.now || u.locked c.now
      | _ => true) = true := by decide
  have hcond : ∀ e ∈ Siege.history, e.LockStands App.sample :=
    fun e he => Event.lockStands_of_all (hall e he)
  have hnone : ∀ e' ∈ Siege.history.take 19, ∀ row ∈ e'.lockoutMails 1, ¬9 - 86400 <
      row.queuedAt := by
    decide
  exact ⟨hcond, (lockout_mail_once_a_day App.sample Siege.start _ _ Siege.init Siege.run hcond
    1).2.2 _ _ _ 9 Siege.cut Siege.startsLock hnone⟩

namespace SameSecond

open Siege (account start)

/-- A stranger's wrong password, submitted and decided in one second. -/
def guess (i : Nat) : List Label :=
  [.login (i + 1) account.email "a guess".toList [] none 5, .decide (i + 1) (.sample 0)]

/-- Ten guesses, an unlock and ten more guesses, all in one second. -/
def labels : List Label :=
  (List.range 10).flatMap guess ++ .unlock account.email 5 ::
    (List.range 10).flatMap fun i => guess (i + 10)

def history : List Event := Lts.history (World.step App.sample) start labels

theorem run : World.Run App.sample start history (Lts.last start history) :=
  .of_history (by decide)

end SameSecond

/-- Two lockout mails of one account are enqueued at the same clock value. -/
theorem unlocked_account_mailed_twice :
    Siege.start.Init ∧
      World.Run App.sample Siege.start SameSecond.history
        (Lts.last Siege.start SameSecond.history) ∧
      InOrder App.sample 1 SameSecond.history ∧
      (SameSecond.history.flatMap fun e => (e.lockoutMails 1).map OutboxRow.queuedAt) = [5, 5] := by
  refine ⟨Siege.init, SameSecond.run, ?_, by decide⟩
  unfold InOrder
  decide

end Kohaku
