import Kohaku.Server.Steps

/-!
# The effect on each table

`Effect` read column by column: what a transaction does to the row of one account, and where the
sessions and device cookies after it come from.
-/

namespace Kohaku

open Sql Credentials

/-! ## Accounts -/

/-- The counters a success resets. -/
def UserRow.resetCounters (u : UserRow) : UserRow :=
  { u with failedLogins := 0, deviceFailures := 0, deviceWindowStart := none }

/-- What the success work does to the account's row. -/
def Work.onRow : Work → UserRow → UserRow
  | changePassword phc, u => { u with passwordHash := some phc }
  | disableTotp, u => { u with totpNonce := none, totpLastStep := none }
  | login _, u | startTotp _, u | regenerateCodes, u => u

/-- The account whose row a committed transaction writes, apart from counting a failure. -/
def Tx.subject (db : Db) : Tx → Result → Option Nat
  | decide c _ _, .outcome (.success _) => some c.accountId
  | confirmTotp user _ _ _, .confirmed (.enrolled _) => some user.userId
  | linkSubmit tokenHash _ now, .linked true =>
    (db.tokens.find? (acceptable db tokenHash now)).bind TokenRow.userId
  | unlock email _, _ => accountOf db email
  | setDisabled uid _, _ => some uid
  | _, _ => none

/-- What a transaction does to the row of one account. -/
inductive RowStep (A : App) (db : Db) : Tx → Result → UserRow → UserRow → Prop
  | same : tx.subject db r ≠ some u.id → RowStep A db tx r u u
  | counted : c.accountId = u.id → u.blocked c.verified.knownDevice c.now = false →
    RowStep A db (.decide c work d) (.outcome .failure) u
      (counted c.verified.knownDevice c.now u)
  | passed : c.accountId = u.id → Passed A db c u db₁ →
    db₁.user? u.id = some { u with totpLastStep := last } →
    RowStep A db (.decide c work d) (.outcome (.success value)) u
      (work.onRow { u with totpLastStep := last }.resetCounters)
  | enrolled : user.userId = u.id → s ∈ db.sessions → s.id = user.sessionId →
    s.pendingTotpNonce = some nonce →
    matchingStep A.toCrypto (deriveSeed A.toCrypto A.secret u.id nonce)
      (trim text) now = some step →
    RowStep A db (.confirmTotp user text now d) (.confirmed (.enrolled codes)) u
      { u with totpNonce := some nonce, totpLastStep := some step }
  | reset : (Tx.linkSubmit tokenHash phc now).subject db (.linked true) = some u.id →
    RowStep A db (.linkSubmit tokenHash phc now) (.linked true) u
      { u with passwordHash := some phc }
  | unlock : accountOf db email = some u.id → RowStep A db (.unlock email now) .unit u
      { u with
        lockedUntil := none, failedLogins := 0, deviceFailures := 0, deviceWindowStart := none }
  | setDisabled : RowStep A db (.setDisabled u.id b) .unit u { u with disabled := b }

variable {A : App} {db db' : Db} {tx : Tx} {r : Result}

/-- `link_submit` is about the account of the one token that it consumes. -/
theorem Tx.subject_linkSubmit {tokenHash : Bytes} {phc : Str} {now : Time} {t : TokenRow}
    (ht : t ∈ db.tokens) (hacc : acceptable db tokenHash now t = true)
    (huniq : ∀ t' ∈ db.tokens, acceptable db tokenHash now t' = true → t' = t) :
    (Tx.linkSubmit tokenHash phc now).subject db (.linked true) = t.userId := by
  simp only [Tx.subject]
  cases hf : db.tokens.find? (acceptable db tokenHash now) with
  | none => simpa [hacc] using Table.find?_eq_none.mp hf t ht
  | some t' => rw [huniq t' (Table.mem_of_find? hf) (Table.of_find? hf), Option.bind_some]

/-- The second factor changes at most the last accepted step of the account. -/
theorem SecondFactor.user? {u : UserRow} {text : Str} {now : Time} {db₁ : Db}
    (h : SecondFactor A db u text now db₁) (hu : db.user? u.id = some u) :
    (∃ last, db₁.user? u.id = some { u with totpLastStep := last }) ∧
      ∀ i, i ≠ u.id → db₁.user? i = db.user? i := by
  cases h with
  | notEnrolled => exact ⟨⟨u.totpLastStep, hu⟩, fun _ _ => rfl⟩
  | enrolled _ ha =>
    cases ha with
    | @totp v step _ _ _ =>
      refine ⟨⟨some step, ?_⟩, fun i hi => Db.user?_updateUser_of_ne hi⟩
      rw [Db.user?_updateUser_self, hu]
      rfl
    | recovery => exact ⟨⟨u.totpLastStep, hu⟩, fun _ _ => rfl⟩

/-- An update of one account, seen from the account `i`. -/
theorem Db.user?_updateUser {uid i : Nat} {f : UserRow → UserRow} {u : UserRow}
    (hf : ∀ u, (f u).id = u.id) (hu : db.user? i = some u) :
    (db.updateUser uid f hf).user? i = some (if u.id = uid then f u else u) := by
  have hid := Db.id_of_user? hu
  by_cases h : u.id = uid
  · rw [if_pos h, show i = uid from hid.symm.trans h, Db.user?_updateUser_self,
      show db.user? uid = some u by rw [← h, hid]; exact hu]
    rfl
  · rw [if_neg h, Db.user?_updateUser_of_ne (fun hi => h (hid.trans hi)), hu]

/-- The row of an account that passed, after its counters are reset and the work is done. -/
theorem Passed.row {c : Checking} {u v : UserRow} {db₁ db₂ : Db} {work : Work} {d : Draws}
    {value : Value} {i : Nat} (hp : Passed A db c u db₁) (hv : db.user? i = some v)
    (hdb : ∀ row, (Credentials.resetCounters db₁ c.accountId).user? i = some row →
      db₂.user? i = some (if row.id = c.accountId then work.onRow row else row)) :
    ∃ v', db₂.user? i = some v' ∧
      RowStep A db (.decide c work d) (.outcome (.success value)) v v' := by
  have hid := Db.id_of_user? hp.user
  have hu : db.user? u.id = some u := hid ▸ hp.user
  obtain ⟨⟨last, hlast⟩, hother⟩ := SecondFactor.user? hp.factor hu
  have hvi := Db.id_of_user? hv
  by_cases hi : i = u.id
  · subst hi
    rw [hu] at hv
    cases hv
    refine ⟨_, hdb { u with totpLastStep := last }.resetCounters ?_, ?_⟩
    · unfold Credentials.resetCounters
      rw [← hid, Db.user?_updateUser_self, hlast]
      rfl
    · have hrow : (UserRow.resetCounters { u with totpLastStep := last }).id = c.accountId := hid
      rw [if_pos hrow]
      exact .passed hid.symm hp hlast
  · refine ⟨v, ?_, .same ?_⟩
    · rw [hdb v, if_neg (by rw [hvi, ← hid]; exact hi)]
      unfold Credentials.resetCounters
      rw [Db.user?_updateUser_of_ne (by rw [← hid]; exact hi), hother i hi, hv]
    · simp only [Tx.subject, ne_eq, Option.some.injEq]
      rw [hvi, ← hid]
      exact fun h => hi h.symm

/-- An update of the row of `uid` by a transaction about that account. -/
theorem Db.row_updateUser {uid i : Nat} {f : UserRow → UserRow} {u : UserRow}
    (hf : ∀ u, (f u).id = u.id) (hdb : db'.users = (db.updateUser uid f hf).users)
    (hu : db.user? i = some u) (hself : u.id = uid → RowStep A db tx r u (f u))
    (hsubj : tx.subject db r = some uid ∨ tx.subject db r = none) :
    ∃ u', db'.user? i = some u' ∧ RowStep A db tx r u u' := by
  refine ⟨_, (congrArg (Table.get? · i) hdb).trans (Db.user?_updateUser hf hu), ?_⟩
  split
  · exact hself ‹_›
  · rename_i h
    refine .same ?_
    rcases hsubj with hs | hs
    · rw [hs, ne_eq, Option.some.injEq]
      exact fun h' => h h'.symm
    · rw [hs]
      simp

/-- The row of an account after a transaction. -/
theorem Effect.row (h : Effect A db tx r db') {i : Nat} {u : UserRow} (hu : db.user? i = some u) :
    ∃ u', db'.user? i = some u' ∧ RowStep A db tx r u u' := by
  cases h with
  | touch | logout | endOtherSessions | resetQueued | placeholderQueued | resetPassword
  | retentionAudit | retentionSignIn => exact ⟨u, hu, .same (by simp [Tx.subject])⟩
  | linkRefused => exact ⟨u, hu, .same (by simp [Tx.subject])⟩
  | @notEnrolled r _ _ _ _ hr =>
    refine ⟨u, hu, .same ?_⟩
    cases r with
    | enrolled codes => exact absurd rfl (hr codes)
    | notStarted | wrongCode => simp [Tx.subject]
  | enrolled hs hid hn hstep =>
    refine Db.row_updateUser (by intro _; rfl) rfl hu (fun h => ?_) (.inl rfl)
    exact .enrolled h.symm hs hid hn (h ▸ hstep)
  | @refused o _ _ _ ho =>
    refine ⟨u, hu, .same ?_⟩
    cases o with
    | success value => exact absurd rfl (ho value)
    | failure | twoFactorRequired => simp [Tx.subject]
  | @failed v c work d hv hb =>
    have hid := Db.id_of_user? hv
    refine Db.row_updateUser (counted_id _) rfl hu (fun h => ?_) (.inr rfl)
    have : u = v := by
      have := Db.id_of_user? hu
      rw [h, hid] at this
      rw [← this, hv] at hu
      cases hu
      rfl
    subst this
    exact .counted hid.symm hb
  | login hp | startTotp hp | regenerateCodes hp =>
    refine hp.row hu fun row hrow => ?_
    simp only [Work.onRow, ite_self]
    exact hrow
  | changePassword hp => exact hp.row hu fun row hrow => Db.user?_updateUser (by intro _; rfl) hrow
  | disableTotp hp => exact hp.row hu fun row hrow => Db.user?_updateUser (by intro _; rfl) hrow
  | @linkConsumed t tokenHash now uid v phc log ht hacc huniq hid hv =>
    have hsubj : (Tx.linkSubmit tokenHash phc now).subject db (.linked true) = some uid :=
      (Tx.subject_linkSubmit ht hacc huniq).trans hid
    refine Db.row_updateUser (by intro _; rfl) rfl hu (fun h => .reset ?_) (.inl hsubj)
    rw [hsubj, h]
  | unlock hid =>
    exact Db.row_updateUser (by intro _; rfl) rfl hu (fun h => .unlock (h ▸ hid)) (.inl hid)
  | setDisabled =>
    exact Db.row_updateUser (by intro _; rfl) rfl hu (fun h => h ▸ .setDisabled) (.inl rfl)
  | pick hp =>
    refine ⟨u, ?_, .same (by simp [Tx.subject])⟩
    rw [Db.user?, (Mail.pick_mailOnly hp).users]
    exact hu
  | record =>
    refine ⟨u, ?_, .same (by simp [Tx.subject])⟩
    rw [Db.user?, (Mail.record_mailOnly ..).users]
    exact hu
  | retentionOutbox =>
    refine ⟨u, ?_, .same (by simp [Tx.subject])⟩
    rw [Db.user?]
    simp only [Kohaku.retentionOutbox]
    rw [(Mail.giveUpExpired_mailOnly ..).users]
    exact hu

/-- No transaction adds an account. -/
theorem Effect.user?_none (h : Effect A db tx r db') {i : Nat} (hu : db.user? i = none) :
    db'.user? i = none := by
  have hnone : ∀ {f : UserRow → UserRow} {db₁ db₂ : Db} {uid : Nat} (hf : ∀ u, (f u).id = u.id),
      db₂.users = (db₁.updateUser uid f hf).users → db₁.user? i = none → db₂.user? i = none := by
    intro f db₁ db₂ uid hf hdb h₁
    rw [Db.user?, hdb]
    unfold Db.updateUser
    rw [Table.get?_update, show db₁.users.get? i = none from h₁]
    rfl
  have hfactor : ∀ {c : Checking} {u : UserRow} {db₁ : Db}, Passed A db c u db₁ →
      (Credentials.resetCounters db₁ c.accountId).user? i = none := by
    intro c u db₁ hp
    refine hnone (by intro _; rfl) rfl ?_
    have hid := Db.id_of_user? hp.user
    obtain ⟨-, hother⟩ := SecondFactor.user? hp.factor (hid ▸ hp.user)
    rw [hother i, hu]
    rintro rfl
    rw [hid, hp.user] at hu
    cases hu
  cases h with
  | touch | logout | notEnrolled | endOtherSessions | refused | resetQueued | placeholderQueued
  | linkRefused | resetPassword | retentionAudit | retentionSignIn => exact hu
  | enrolled | linkConsumed | unlock | setDisabled => exact hnone (by intro _; rfl) rfl hu
  | failed => exact hnone (counted_id _) rfl hu
  | login hp | startTotp hp | regenerateCodes hp => exact hfactor hp
  | changePassword hp | disableTotp hp => exact hnone (by intro _; rfl) rfl (hfactor hp)
  | pick hp => rw [Db.user?, (Mail.pick_mailOnly hp).users]; exact hu
  | record => rw [Db.user?, (Mail.record_mailOnly ..).users]; exact hu
  | retentionOutbox =>
    rw [Db.user?]
    simp only [Kohaku.retentionOutbox]
    rw [(Mail.giveUpExpired_mailOnly ..).users]
    exact hu

/-- The row of an account before a transaction, from its row after it. -/
theorem Effect.row_back (h : Effect A db tx r db') {i : Nat} {u' : UserRow}
    (hu : db'.user? i = some u') : ∃ u, db.user? i = some u ∧ RowStep A db tx r u u' := by
  cases hb : db.user? i with
  | none =>
    rw [h.user?_none hb] at hu
    cases hu
  | some u =>
    obtain ⟨u₁, h₁, hstep⟩ := h.row hb
    rw [hu] at h₁
    cases h₁
    exact ⟨u, rfl, hstep⟩

/-! ## Passwords -/

/-- The account's stored hash. -/
def Db.hash? (db : Db) (i : Nat) : Option Str := (db.user? i).bind fun u => u.passwordHash

/-- The transaction sets the password of account `i` to the hash `phc`. -/
inductive Tx.SetsPassword (db : Db) (i : Nat) (phc : Str) : Tx → Result → Prop
  | change : c.accountId = i →
    SetsPassword db i phc (.decide c (.changePassword phc) d) (.outcome (.success value))
  | reset : (Tx.linkSubmit tokenHash phc now).subject db (.linked true) = some i →
    SetsPassword db i phc (.linkSubmit tokenHash phc now) (.linked true)

theorem RowStep.hash {u u' : UserRow} (h : RowStep A db tx r u u') :
    u'.passwordHash = u.passwordHash ∨
      ∃ phc, Tx.SetsPassword db u.id phc tx r ∧ u'.passwordHash = some phc := by
  cases h with
  | same | enrolled | unlock | setDisabled => exact .inl rfl
  | counted =>
    left
    simp only [Credentials.counted, countDevice, countLogin]
    split <;> split <;> rfl
  | @passed c _ _ _ work _ _ hid _ _ =>
    cases work with
    | changePassword phc => exact .inr ⟨phc, .change hid, rfl⟩
    | login | startTotp | disableTotp | regenerateCodes => exact .inl rfl
  | reset hs => exact .inr ⟨_, .reset hs, rfl⟩

theorem RowStep.disabled {u u' : UserRow} (h : RowStep A db tx r u u') :
    u'.disabled = u.disabled ∨ tx = .setDisabled u.id u'.disabled := by
  cases h with
  | same | enrolled | unlock | reset => exact .inl rfl
  | setDisabled => exact .inr rfl
  | counted =>
    left
    simp only [Credentials.counted, countDevice, countLogin]
    split <;> split <;> rfl
  | @passed c _ _ _ work => cases work <;> exact .inl rfl

/-- Only setting the password changes the stored hash. -/
theorem Effect.hash? (h : Effect A db tx r db') (i : Nat) :
    db'.hash? i = db.hash? i ∨ ∃ phc, tx.SetsPassword db i phc r ∧ db'.hash? i = some phc := by
  cases hu : db.user? i with
  | none => simp [Db.hash?, hu, h.user?_none hu]
  | some u =>
    obtain ⟨u', hu', hstep⟩ := h.row hu
    simp only [Db.hash?, hu, hu', Option.bind_some]
    rw [← Db.id_of_user? hu]
    exact hstep.hash

/-- Setting a password ends every session and forgets every device cookie of the account. -/
theorem Effect.ended (h : Effect A db tx r db') {i : Nat} {phc : Str}
    (hs : tx.SetsPassword db i phc r) :
    (∀ s ∈ db'.sessions, s.userId ≠ i) ∧ ∀ d ∈ db'.knownDevices, d.userId ≠ i := by
  have hdel : ∀ (db : Db),
      (∀ s ∈ db.sessions.delete fun s => s.userId = i, s.userId ≠ i) ∧
        ∀ d ∈ db.knownDevices.delete fun d => d.userId = i, d.userId ≠ i := by
    intro db
    refine ⟨fun s hs => ?_, fun d hd => ?_⟩
    · simpa using (Table.mem_delete.mp hs).2
    · simpa using (Table.mem_delete.mp hd).2
  cases hs with
  | change hid =>
    subst hid
    cases h with
    | refused ho => exact absurd rfl (ho _)
    | changePassword => exact hdel _
  | reset hsubj =>
    cases h with
    | @linkConsumed t tokenHash now uid v phc log ht hacc huniq hid hv =>
      rw [Tx.subject_linkSubmit ht hacc huniq, hid] at hsubj
      cases hsubj
      exact hdel { db with tokens := _ }

/-! ## Sessions and device cookies -/

/-- The columns of a session that no statement changes. -/
def SessionRow.fixed (s : SessionRow) : Nat × Bytes × Nat × Bytes × Time :=
  (s.id, s.tokenHash, s.userId, s.csrfToken, s.createdAt)

theorem SessionRow.id_of_fixed {s t : SessionRow} (h : s.fixed = t.fixed) : s.id = t.id :=
  congrArg (fun x => x.1) h

theorem SessionRow.tokenHash_of_fixed {s t : SessionRow} (h : s.fixed = t.fixed) :
    s.tokenHash = t.tokenHash :=
  congrArg (fun x => x.2.1) h

theorem SessionRow.userId_of_fixed {s t : SessionRow} (h : s.fixed = t.fixed) :
    s.userId = t.userId :=
  congrArg (fun x => x.2.2.1) h

/-- A session after a transaction was there before, or is the one a login inserted. -/
theorem Effect.session (h : Effect A db tx r db') {s' : SessionRow} (hs : s' ∈ db'.sessions) :
    (∃ s ∈ db.sessions, s.fixed = s'.fixed) ∨
      ∃ c device d value u db₁, tx = .decide c (.login device) d ∧ r = .outcome (.success value) ∧
        Passed A db c u db₁ ∧
        s' = newSession A c.accountId c.now d.token d.csrf db.sessions.nextRowid := by
  cases h with
  | notEnrolled | refused | failed | resetQueued | placeholderQueued | linkRefused | unlock
  | resetPassword | retentionAudit | setDisabled => exact .inl ⟨s', hs, rfl⟩
  | logout | endOtherSessions | retentionSignIn | linkConsumed =>
    exact .inl ⟨s', Table.mem_of_mem_delete hs, rfl⟩
  | touch | startTotp =>
    simp only [Kohaku.touch, Table.mem_update] at hs
    obtain ⟨s, hm, rfl⟩ := hs
    exact .inl ⟨s, hm, by split <;> rfl⟩
  | enrolled =>
    simp only [Table.mem_update] at hs
    obtain ⟨s, hm, rfl⟩ := hs
    exact .inl ⟨s, Table.mem_of_mem_delete hm, by split <;> rfl⟩
  | login hp =>
    simp only [Table.mem_insertNew] at hs
    rcases hs with hs | rfl
    · exact .inl ⟨s', hs, rfl⟩
    · exact .inr ⟨_, _, _, _, _, _, rfl, rfl, hp, rfl⟩
  | changePassword hp =>
    have hs := Table.mem_of_mem_delete hs
    exact .inl ⟨s', (SecondFactor.sessions hp.factor).1 ▸ hs, rfl⟩
  | disableTotp hp | regenerateCodes hp =>
    exact .inl ⟨s', (SecondFactor.sessions hp.factor).1 ▸ hs, rfl⟩
  | pick hp => rw [(Mail.pick_mailOnly hp).sessions] at hs; exact .inl ⟨s', hs, rfl⟩
  | record => rw [(Mail.record_mailOnly ..).sessions] at hs; exact .inl ⟨s', hs, rfl⟩
  | retentionOutbox =>
    simp only [Kohaku.retentionOutbox] at hs
    rw [(Mail.giveUpExpired_mailOnly ..).sessions] at hs
    exact .inl ⟨s', hs, rfl⟩

/-- A device cookie after a transaction was there before, or is the one a login added. -/
theorem Effect.device (h : Effect A db tx r db') {k : DeviceRow} (hk : k ∈ db'.knownDevices) :
    k ∈ db.knownDevices ∨
      ∃ c device d value u db₁, tx = .decide c (.login device) d ∧ r = .outcome (.success value) ∧
        Passed A db c u db₁ ∧
        k = newDevice A c.accountId c.now d.device db.knownDevices.nextRowid := by
  cases h with
  | touch | logout | endOtherSessions | notEnrolled | refused | failed | resetQueued
  | placeholderQueued | linkRefused | unlock | resetPassword | retentionAudit | setDisabled =>
    exact .inl hk
  | enrolled | retentionSignIn | linkConsumed | disableTotp =>
    exact .inl (Table.mem_of_mem_delete hk)
  | login hp =>
    simp only [loginDevices] at hk
    split at hk
    · exact .inl hk
    · have hk := Table.mem_of_mem_delete hk
      rw [Table.mem_insertNew] at hk
      rcases hk with hk | rfl
      · exact .inl hk
      · exact .inr ⟨_, _, _, _, _, _, rfl, rfl, hp, rfl⟩
  | changePassword hp =>
    have hk := Table.mem_of_mem_delete hk
    exact .inl ((SecondFactor.sessions hp.factor).2.1 ▸ hk)
  | startTotp hp | regenerateCodes hp => exact .inl ((SecondFactor.sessions hp.factor).2.1 ▸ hk)
  | pick hp => rw [(Mail.pick_mailOnly hp).knownDevices] at hk; exact .inl hk
  | record => rw [(Mail.record_mailOnly ..).knownDevices] at hk; exact .inl hk
  | retentionOutbox =>
    simp only [Kohaku.retentionOutbox] at hk
    rw [(Mail.giveUpExpired_mailOnly ..).knownDevices] at hk
    exact .inl hk

/-! ## Where the rows of a state come from -/

/-- The step inserted the session `s`. -/
def Event.InsertsSession (e : Event) (s : SessionRow) : Prop :=
  (∀ r ∈ e.pre.db.sessions, r.id ≠ s.id) ∧ ∃ r ∈ e.post.db.sessions, r.fixed = s.fixed

/-- The step inserted the device cookie `k`. -/
def Event.InsertsDevice (e : Event) (k : DeviceRow) : Prop :=
  (∀ r ∈ e.pre.db.knownDevices, r.id ≠ k.id) ∧ k ∈ e.post.db.knownDevices

/-- The step is the deciding transaction of a login that passed, of the check `c` of the account
with row `u`; `db₁` is the database after the second factor. -/
def Event.LoginPassed (A : App) (e : Event) (c : Checking) (u : UserRow) (db₁ : Db) : Prop :=
  ∃ device d value, e.Commits A (.decide c (.login device) d) (.outcome (.success value)) ∧
    Passed A e.pre.db c u db₁

namespace World.Run

variable {w₀ w : World} {h : List Event}

/-- Every session was inserted by a login of its account and has been there since. -/
theorem session_origin (hinit : w₀.Init) (H : World.Run A w₀ h w) {s : SessionRow}
    (hs : s ∈ w.db.sessions) :
    ∃ h₁ e h₂, h = h₁ ++ e :: h₂ ∧ e.InsertsSession s ∧
      (∃ c u db₁, e.LoginPassed A c u db₁ ∧ c.accountId = s.userId) ∧
      ∀ e' ∈ h₂, ∃ r ∈ e'.post.db.sessions, r.fixed = s.fixed := by
  obtain ⟨h₁, e, h₂, rfl, hpre, ⟨r, hr, hfix⟩, hkeep⟩ :=
    H.origin (fun w => ∃ r ∈ w.db.sessions, r.fixed = s.fixed)
      (by rw [hinit.sessions]; simp) ⟨s, hs, rfl⟩
  refine ⟨h₁, e, h₂, rfl, ?_, ?_, fun e' he' => (hkeep e' he').2⟩
  all_goals
    obtain ⟨-, hstep, -⟩ := H.split
    rcases Event.commits_or_same hstep with hsame | ⟨tx, res, hc⟩
    · exact absurd ⟨r, hsame ▸ hr, hfix⟩ hpre
    rcases hc.effect.session hr with ⟨q, hq, hq'⟩ | ⟨c, device, d, value, u, db₁, rfl, rfl, hp, rfl⟩
    · exact absurd ⟨q, hq, hq'.trans hfix⟩ hpre
  · refine ⟨fun q hq => ?_, _, hr, hfix⟩
    rw [← SessionRow.id_of_fixed hfix]
    exact (Table.lt_nextRowid hq).ne
  · exact ⟨c, u, db₁, ⟨device, d, value, hc, hp⟩, SessionRow.userId_of_fixed hfix⟩

/-- Every device cookie was inserted by a login of its account and has been there since. -/
theorem device_origin (hinit : w₀.Init) (H : World.Run A w₀ h w) {k : DeviceRow}
    (hk : k ∈ w.db.knownDevices) :
    ∃ h₁ e h₂, h = h₁ ++ e :: h₂ ∧ e.InsertsDevice k ∧
      (∃ c u db₁, e.LoginPassed A c u db₁ ∧ c.accountId = k.userId) ∧
      ∀ e' ∈ h₂, k ∈ e'.post.db.knownDevices := by
  obtain ⟨h₁, e, h₂, rfl, hpre, hpost, hkeep⟩ :=
    H.origin (fun w => k ∈ w.db.knownDevices) (by rw [hinit.knownDevices]; simp) hk
  refine ⟨h₁, e, h₂, rfl, ?_, ?_, fun e' he' => (hkeep e' he').2⟩
  all_goals
    obtain ⟨-, hstep, -⟩ := H.split
    rcases Event.commits_or_same hstep with hsame | ⟨tx, res, hc⟩
    · exact absurd (hsame ▸ hpost) hpre
    rcases hc.effect.device hpost with hq | ⟨c, device, d, value, u, db₁, rfl, rfl, hp, rfl⟩
    · exact absurd hq hpre
  · exact ⟨fun q hq => (Table.lt_nextRowid hq).ne, hpost⟩
  · exact ⟨c, u, db₁, ⟨device, d, value, hc, hp⟩, rfl⟩

end World.Run

end Kohaku
