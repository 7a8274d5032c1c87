import Kohaku.Server.Tables

/-!
# Second factors

What a transaction does to the nonce an account is enrolled with, to the last TOTP step accepted
for it, to the nonces pending on sessions and to the recovery codes. A code field that looks like a
TOTP code is compared as one and is never tried as a recovery code, so an accepted check accepts one
factor.
-/

namespace Kohaku

open Sql Credentials

/-- The nonce the account is enrolled with. -/
def Db.nonce? (db : Db) (uid : Nat) : Option Bytes := (db.user? uid).bind fun u => u.totpNonce

/-- The last step accepted for the account. -/
def Db.lastStep? (db : Db) (uid : Nat) : Option Int := (db.user? uid).bind fun u => u.totpLastStep

/-- The stored recovery codes of the account. -/
def Db.codes (db : Db) (uid : Nat) : List RecoveryRow :=
  db.recoveryCodes.rows.filter fun r => r.userId = uid

/-- The code field of a check, as it is compared. -/
def Checking.text (c : Checking) : Str := trimMatches isAsciiWhitespace c.verified.code

/-! ## Factors and transactions -/

namespace Tx

/-- `confirm_totp` enrolls `uid` with the nonce pending on the request's session, by a code of
`step`. -/
inductive Confirms (A : App) (db : Db) (uid : Nat) (nonce : Bytes) (step : Int) (now : Time) :
    Tx → Result → Prop
  | mk : user.userId = uid → s ∈ db.sessions → s.id = user.sessionId →
    s.pendingTotpNonce = some nonce →
    matchingStep A.toCrypto (deriveSeed A.toCrypto A.secret uid nonce) (trim text) now = some step →
    Confirms A db uid nonce step now (.confirmTotp user text now d) (.confirmed (.enrolled codes))

/-- A check of `uid`, enrolled with `nonce`, succeeds with a TOTP code of `step`. -/
inductive AcceptsTotp (A : App) (db : Db) (uid : Nat) (nonce : Bytes) (step : Int) :
    Time → Tx → Result → Prop
  | mk : c.accountId = uid → db.nonce? uid = some nonce →
    matchingStep A.toCrypto (deriveSeed A.toCrypto A.secret uid nonce) c.text c.now = some step →
    AcceptsTotp A db uid nonce step c.now (.decide c work d) (.outcome (.success value))

/-- A check of `uid`, which is enrolled, succeeds with the recovery code `text`. -/
inductive AcceptsCode (db : Db) (uid : Nat) (text : Str) : Tx → Result → Prop
  | mk : c.accountId = uid → (db.nonce? uid).isSome = true → isCode c.text = false →
    Recovery.normalize c.text = some text →
    AcceptsCode db uid text (.decide c work d) (.outcome (.success value))

/-- The transaction calls `recovery::replace` for `uid`, which returns `codes`. -/
inductive Replaces (uid : Nat) (codes : List Str) : Tx → Result → Prop
  | confirm : user.userId = uid →
    Replaces uid codes (.confirmTotp user text now d) (.confirmed (.enrolled codes))
  | regenerate : c.accountId = uid →
    Replaces uid codes (.decide c .regenerateCodes d) (.outcome (.success (.codes codes)))

/-- The transaction ends the enrollment of `uid`. -/
inductive Disables (uid : Nat) : Tx → Result → Prop
  | mk : c.accountId = uid → Disables uid (.decide c .disableTotp d) (.outcome (.success value))

/-- The transaction neither replaces nor deletes the recovery codes of `uid`. -/
def LeavesCodes (uid : Nat) (tx : Tx) (r : Result) : Prop :=
  (∀ codes, ¬tx.Replaces uid codes r) ∧ ¬tx.Disables uid r

end Tx

variable {A : App} {db db' : Db} {tx : Tx} {r : Result} {uid : Nat}

theorem isCode_of_matchingStep {C : Crypto} {seed : Bytes} {text : Str} {now : Time} {step : Int}
    (h : matchingStep C seed text now = some step) : isCode text = true := by
  unfold matchingStep at h
  split at h
  · cases h
  · rename_i hc
    simpa using hc

/-- The last step after the second factor: the step of the TOTP code, or as before. -/
theorem SecondFactor.lastStep {u : UserRow} {code : Str} {now : Time} {db₁ : Db} {last : Option Int}
    (h : SecondFactor A db u code now db₁) (hu : db.user? u.id = some u)
    (h₁ : db₁.user? u.id = some { u with totpLastStep := last }) :
    (∃ nonce step, u.totpNonce = some nonce ∧
      matchingStep A.toCrypto (deriveSeed A.toCrypto A.secret u.id nonce)
        (trimMatches isAsciiWhitespace code) now = some step ∧
      (∀ l, u.totpLastStep = some l → l < step) ∧ last = some step) ∨
    last = u.totpLastStep ∧ ∀ nonce, u.totpNonce = some nonce →
      isCode (trimMatches isAsciiWhitespace code) = false := by
  cases h with
  | notEnrolled hn =>
    right
    rw [hu] at h₁
    refine ⟨congrArg UserRow.totpLastStep (Option.some.inj h₁).symm, fun nonce h => ?_⟩
    rw [hn] at h
    cases h
  | @enrolled nonce _ hn ha =>
    cases ha with
    | @totp v step hv hstep hlast =>
      left
      rw [hu] at hv
      cases hv
      rw [Db.user?_updateUser_self, hu] at h₁
      exact ⟨nonce, step, hn, hstep, hlast,
        (congrArg UserRow.totpLastStep (Option.some.inj h₁)).symm⟩
    | recovery hcode =>
      right
      have h₁ : db.user? u.id = some { u with totpLastStep := last } := h₁
      rw [hu] at h₁
      exact ⟨congrArg UserRow.totpLastStep (Option.some.inj h₁).symm, fun _ _ => hcode⟩

namespace Tx

theorem AcceptsTotp.unique {n n' : Bytes} {step step' : Int} {now now' : Time}
    (h : AcceptsTotp A db uid n step now tx r) (h' : AcceptsTotp A db uid n' step' now' tx r) :
    n = n' ∧ step = step' := by
  cases h with
  | mk _ hn hs =>
    cases h' with
    | mk _ hn' hs' =>
      rw [hn] at hn'
      cases hn'
      rw [hs] at hs'
      exact ⟨rfl, Option.some.inj hs'⟩

end Tx

/-! ## The enrollment and the last step -/

/-- What a transaction does to the enrollment of one account. -/
inductive FactorStep (A : App) (db : Db) (uid : Nat) (tx : Tx) (r : Result) (db' : Db) : Prop
  | same : (∀ n step now, ¬tx.AcceptsTotp A db uid n step now r) →
    db'.nonce? uid = db.nonce? uid → db'.lastStep? uid = db.lastStep? uid →
    FactorStep A db uid tx r db'
  | accepted : tx.AcceptsTotp A db uid n step now r →
    (∀ l, db.lastStep? uid = some l → l < step) →
    db'.nonce? uid = db.nonce? uid → db'.lastStep? uid = some step → FactorStep A db uid tx r db'
  | confirmed : tx.Confirms A db uid n step now r →
    db'.nonce? uid = some n → db'.lastStep? uid = some step → FactorStep A db uid tx r db'
  | disabled : tx.Disables uid r →
    (∀ n step now, tx.AcceptsTotp A db uid n step now r → ∀ l, db.lastStep? uid =
      some l → l < step) →
    db'.nonce? uid = none → FactorStep A db uid tx r db'

/-- The second factor of a check that passed, as acceptance of a TOTP code. -/
theorem Passed.totp {c : Checking} {u : UserRow} {db₁ : Db} {last : Option Int}
    (hp : Passed A db c u db₁) (work : Work) (d : Draws) (value : Value) (hid : c.accountId = u.id)
    (h₁ : db₁.user? u.id = some { u with totpLastStep := last }) :
    (∃ n step, (Tx.decide c work d).AcceptsTotp A db u.id n step c.now (.outcome (.success value)) ∧
      (∀ l, u.totpLastStep = some l → l < step) ∧ last = some step) ∨
    last = u.totpLastStep ∧ ∀ n step now,
      ¬(Tx.decide c work d).AcceptsTotp A db u.id n step now (.outcome (.success value)) := by
  have hu : db.user? u.id = some u := hid ▸ hp.user
  rcases SecondFactor.lastStep hp.factor hu h₁ with ⟨n, step, hn, hs, hlt, hlast⟩ | ⟨hlast, hcode⟩
  · refine .inl ⟨n, step, .mk hid ?_ hs, hlt, hlast⟩
    rw [Db.nonce?, hu, Option.bind_some, hn]
  · refine .inr ⟨hlast, fun n step now h => ?_⟩
    cases h with
    | mk _ hn hs =>
      rw [Db.nonce?, hu, Option.bind_some] at hn
      exact Bool.false_ne_true ((hcode n hn).symm.trans (isCode_of_matchingStep hs))

theorem Effect.factor (h : Effect A db tx r db') (uid : Nat) : FactorStep A db uid tx r db' := by
  cases hu : db.user? uid with
  | none =>
    refine .same (fun n step now ha => ?_) ?_ ?_
    · cases ha with
      | mk _ hn => simp [Db.nonce?, hu] at hn
    · simp [Db.nonce?, hu, h.user?_none hu]
    · simp [Db.lastStep?, hu, h.user?_none hu]
  | some u =>
    obtain ⟨u', hu', hstep⟩ := h.row hu
    obtain rfl := Db.id_of_user? hu
    have hnone : db.nonce? u.id = u.totpNonce := by rw [Db.nonce?, hu]; rfl
    have hlast : db.lastStep? u.id = u.totpLastStep := by rw [Db.lastStep?, hu]; rfl
    have hnone' : db'.nonce? u.id = u'.totpNonce := by rw [Db.nonce?, hu']; rfl
    have hlast' : db'.lastStep? u.id = u'.totpLastStep := by rw [Db.lastStep?, hu']; rfl
    cases hstep with
    | same hs =>
      refine .same (fun n step now ha => ?_) (hnone'.trans hnone.symm) (hlast'.trans hlast.symm)
      cases ha with
      | mk hid => exact hs (by rw [← hid]; rfl)
    | counted =>
      refine .same (fun _ _ _ ha => by cases ha) ?_ ?_
      · rw [hnone, hnone']
        simp only [Credentials.counted, countDevice, countLogin]
        split <;> split <;> rfl
      · rw [hlast, hlast']
        simp only [Credentials.counted, countDevice, countLogin]
        split <;> split <;> rfl
    | reset | unlock | setDisabled =>
      exact .same (fun _ _ _ ha => by cases ha) (hnone'.trans hnone.symm) (hlast'.trans hlast.symm)
    | enrolled hid hs hsid hn hstep =>
      exact .confirmed (.mk hid hs hsid hn hstep) hnone' hlast'
    | @passed c _ db₁ last work d value hid hp h₁ =>
      have ht := hp.totp work d value hid h₁
      cases work with
      | disableTotp =>
        refine .disabled (.mk hid) (fun n step now ha l hl => ?_) hnone'
        rw [hlast] at hl
        rcases ht with ⟨n', step', ha', hlt, -⟩ | ⟨-, hno⟩
        · rw [(ha.unique ha').2]
          exact hlt l hl
        · exact absurd ha (hno n step now)
      | login | changePassword | startTotp | regenerateCodes =>
        rcases ht with ⟨n, step, ha, hlt, hl⟩ | ⟨hl, hno⟩
        · exact .accepted ha (hlast ▸ hlt) (hnone'.trans hnone.symm) (hlast'.trans hl)
        · exact .same hno (hnone'.trans hnone.symm) ((hlast'.trans hl).trans hlast.symm)

/-- A TOTP code that is accepted is of a later step than the last one. -/
theorem Effect.totp_later (h : Effect A db tx r db') {n : Bytes} {step l : Int} {now : Time}
    (ha : tx.AcceptsTotp A db uid n step now r) (hl : db.lastStep? uid = some l) : l < step := by
  cases h.factor uid with
  | same hno => exact absurd ha (hno n step now)
  | accepted ha' hlt =>
    rw [(ha.unique ha').2]
    exact hlt l hl
  | confirmed hc => cases hc; cases ha
  | disabled _ hlt => exact hlt n step now ha l hl

/-- The nonce of a confirmed enrollment is not pending on its session any more; elsewhere nothing
changed. -/
theorem Effect.confirmed_pending (h : Effect A db tx r db') {n m : Bytes} {step : Int} {now : Time}
    (hc : tx.Confirms A db uid n step now r) {s' : SessionRow} (hs' : s' ∈ db'.sessions)
    (hp : s'.pendingTotpNonce = some m) :
    s' ∈ db.sessions ∧ ∃ s ∈ db.sessions, s.pendingTotpNonce = some n ∧ s.id ≠ s'.id := by
  cases hc with
  | mk _ hs hid hn =>
    cases h with
    | notEnrolled hr => exact absurd rfl (hr _)
    | enrolled =>
      simp only [Table.mem_update] at hs'
      obtain ⟨q, hq, rfl⟩ := hs'
      split at hp
      · cases hp
      · rename_i hne
        rw [if_neg hne]
        rw [decide_eq_true_eq] at hne
        exact ⟨Table.mem_of_mem_delete hq, _, hs, hn, fun h => hne (h.symm.trans hid)⟩

/-- A nonce pending after a transaction was pending on the session before, or was drawn for it. -/
theorem Effect.pending (h : Effect A db tx r db') {n : Bytes} {s' : SessionRow}
    (hs' : s' ∈ db'.sessions) (hp : s'.pendingTotpNonce = some n) :
    (∃ s ∈ db.sessions, s.id = s'.id ∧ s.pendingTotpNonce = some n) ∨
      ∃ c d, tx = .decide c (.startTotp s'.id) d := by
  cases h with
  | notEnrolled | refused | failed | resetQueued | placeholderQueued | linkRefused | unlock
  | resetPassword | retentionAudit | setDisabled => exact .inl ⟨s', hs', rfl, hp⟩
  | logout | endOtherSessions | retentionSignIn | linkConsumed =>
    exact .inl ⟨s', Table.mem_of_mem_delete hs', rfl, hp⟩
  | touch =>
    simp only [Kohaku.touch, Table.mem_update] at hs'
    obtain ⟨s, hm, rfl⟩ := hs'
    refine .inl ⟨s, hm, ?_, ?_⟩
    · split <;> rfl
    · split at hp <;> exact hp
  | @startTotp c _ _ _ d =>
    simp only [Table.mem_update] at hs'
    obtain ⟨s, hm, rfl⟩ := hs'
    split at hp
    · rename_i hid
      rw [decide_eq_true_eq] at hid
      refine .inr ⟨c, d, ?_⟩
      rw [if_pos (decide_eq_true hid), hid]
    · rename_i hne
      refine .inl ⟨s, hm, ?_, hp⟩
      rw [if_neg hne]
  | enrolled =>
    simp only [Table.mem_update] at hs'
    obtain ⟨s, hm, rfl⟩ := hs'
    split at hp
    · cases hp
    · rename_i hne
      refine .inl ⟨s, Table.mem_of_mem_delete hm, ?_, hp⟩
      rw [if_neg hne]
  | login =>
    simp only [Table.mem_insertNew] at hs'
    rcases hs' with hs' | rfl
    · exact .inl ⟨s', hs', rfl, hp⟩
    · cases hp
  | changePassword hpass =>
    have hs' := Table.mem_of_mem_delete hs'
    exact .inl ⟨s', (SecondFactor.sessions hpass.factor).1 ▸ hs', rfl, hp⟩
  | disableTotp hpass | regenerateCodes hpass =>
    exact .inl ⟨s', (SecondFactor.sessions hpass.factor).1 ▸ hs', rfl, hp⟩
  | pick h => rw [(Mail.pick_mailOnly h).sessions] at hs'; exact .inl ⟨s', hs', rfl, hp⟩
  | record => rw [(Mail.record_mailOnly ..).sessions] at hs'; exact .inl ⟨s', hs', rfl, hp⟩
  | retentionOutbox =>
    simp only [Kohaku.retentionOutbox] at hs'
    rw [(Mail.giveUpExpired_mailOnly ..).sessions] at hs'
    exact .inl ⟨s', hs', rfl, hp⟩

/-- Right after its enrollment an account has the nonce confirmed and the step of its code. -/
theorem Effect.confirmed_row (h : Effect A db tx r db') {n m : Bytes} {step : Int} {now : Time}
    (hc : tx.Confirms A db uid n step now r) (hm : db'.nonce? uid = some m) :
    m = n ∧ db'.lastStep? uid = some step := by
  cases hu : db.user? uid with
  | none => simp [Db.nonce?, h.user?_none hu] at hm
  | some u =>
    obtain ⟨u', hu', hstep⟩ := h.row hu
    rw [Db.nonce?, hu', Option.bind_some] at hm
    rw [Db.lastStep?, hu', Option.bind_some]
    cases hc with
    | mk hid hs hsid hn hmatch =>
      cases hstep with
      | same hne => exact absurd (congrArg some (hid.trans (Db.id_of_user? hu).symm)) hne
      | enrolled _ hs' hsid' hn' hmatch' =>
        -- the session and the code decide the nonce and the step
        obtain rfl := Table.eq_of_key_eq hs hs' (hsid.trans hsid'.symm)
        rw [hn] at hn'
        cases hn'
        cases hm
        rw [Db.id_of_user? hu, hmatch] at hmatch'
        exact ⟨rfl, hmatch'.symm⟩

/-- Right after its enrollment was ended an account has no nonce. -/
theorem Effect.disabled_row (h : Effect A db tx r db') (hd : tx.Disables uid r) :
    db'.nonce? uid = none := by
  cases hu : db.user? uid with
  | none => simp [Db.nonce?, h.user?_none hu]
  | some u =>
    obtain ⟨u', hu', hstep⟩ := h.row hu
    rw [Db.nonce?, hu', Option.bind_some]
    cases hd with
    | mk hid =>
      cases hstep with
      | same hne => exact absurd (congrArg some (hid.trans (Db.id_of_user? hu).symm)) hne
      | passed => rfl

/-! ## Recovery codes -/

theorem Db.mem_codes {row : RecoveryRow} :
    row ∈ db.codes uid ↔ row ∈ db.recoveryCodes ∧ row.userId = uid := by
  simp [Db.codes, Table.mem_def]

theorem Db.row_mem_codes {text : Str} :
    Recovery.row A uid text ∈ db.codes uid ↔ Recovery.row A uid text ∈ db.recoveryCodes :=
  Db.mem_codes.trans (and_iff_left rfl)

/-- What a transaction does to the recovery codes of one account. -/
inductive CodesStep (A : App) (db : Db) (uid : Nat) (tx : Tx) (r : Result) (db' : Db) : Prop
  | same : tx.LeavesCodes uid r → (∀ text, ¬tx.AcceptsCode db uid text r) →
    db'.codes uid = db.codes uid → CodesStep A db uid tx r db'
  | accepted : tx.LeavesCodes uid r → tx.AcceptsCode db uid text r →
    Recovery.row A uid text ∈ db.recoveryCodes →
    db'.codes uid = (db.codes uid).filter (fun row => row ≠ Recovery.row A uid text) →
    CodesStep A db uid tx r db'
  | replaced : tx.Replaces uid codes r → codes.length = Recovery.count →
    (∀ c ∈ codes, Recovery.IsRecoveryCode c) → db'.codes uid = codes.map (Recovery.row A uid) →
    CodesStep A db uid tx r db'
  | disabled : tx.Disables uid r → db'.codes uid = [] → CodesStep A db uid tx r db'

/-- The second factor of a check that passed, as acceptance of a recovery code. -/
theorem Passed.code {c : Checking} {u : UserRow} {db₁ : Db} (hp : Passed A db c u db₁) (work : Work)
    (d : Draws) (value : Value) :
    (∃ text, (Tx.decide c work d).AcceptsCode db c.accountId text (.outcome (.success value)) ∧
      Recovery.row A c.accountId text ∈ db.recoveryCodes ∧
      db₁.recoveryCodes =
        db.recoveryCodes.delete fun row => row = Recovery.row A c.accountId text) ∨
    db₁.recoveryCodes = db.recoveryCodes ∧ ∀ text,
      ¬(Tx.decide c work d).AcceptsCode db c.accountId text (.outcome (.success value)) := by
  have hid := Db.id_of_user? hp.user
  have hnonce : db.nonce? c.accountId = u.totpNonce := by rw [Db.nonce?, hp.user]; rfl
  cases hp.factor with
  | notEnrolled hn =>
    refine .inr ⟨rfl, fun text h => ?_⟩
    cases h with
    | mk _ he => rw [hnonce, hn] at he; cases he
  | enrolled hn ha =>
    cases ha with
    | totp _ hs =>
      refine .inr ⟨rfl, fun text h => ?_⟩
      cases h with
      | mk _ _ hcode => exact Bool.false_ne_true (hcode.symm.trans (isCode_of_matchingStep hs))
    | @recovery text hcode hnorm hmem =>
      rw [hid] at hmem ⊢
      refine .inl ⟨text, .mk rfl ?_ hcode hnorm, hmem, rfl⟩
      rw [hnonce, hn]
      rfl

/-- The recovery codes of another account after the second factor. -/
theorem Passed.codes_of_ne {c : Checking} {u : UserRow} {db₁ : Db} (hp : Passed A db c u db₁)
    (hne : c.accountId ≠ uid) : db₁.codes uid = db.codes uid := by
  have hid := Db.id_of_user? hp.user
  cases hp.factor with
  | notEnrolled => rfl
  | enrolled _ ha =>
    cases ha with
    | totp => rfl
    | @recovery text =>
      simp only [Db.codes, Table.delete, List.filter_filter]
      refine List.filter_congr fun row _ => ?_
      by_cases h : row.userId = uid
      · have : row ≠ Recovery.row A u.id text := fun heq => hne (by rw [← hid, ← h, heq]; rfl)
        simp [this]
      · simp [h]

/-- The account's codes once those of `v` are replaced. -/
theorem codes_replaced {v : Nat} {codes : List Str} {t rc : Table RecoveryRow RecoveryRow.key}
    (uid : Nat) (hrows : rc.rows = (t.delete fun row => row.userId = v).rows ++
      codes.map (Recovery.row A v)) :
    (rc.rows.filter fun row => row.userId = uid) =
      if v = uid then codes.map (Recovery.row A uid)
      else t.rows.filter fun row => row.userId = uid := by
  simp only [hrows, Table.delete, List.filter_append, List.filter_filter, List.filter_map]
  split
  · rename_i h
    subst h
    rw [List.filter_eq_nil_iff.mpr (by simp), List.nil_append,
      List.filter_eq_self.mpr (by simp [Recovery.row])]
  · rename_i h
    have hnil : codes.filter ((fun row : RecoveryRow => row.userId = uid) ∘ Recovery.row A v) =
        [] :=
      List.filter_eq_nil_iff.mpr (by simp [Recovery.row, h])
    rw [hnil, List.map_nil, List.append_nil]
    refine List.filter_congr fun row _ => ?_
    by_cases hrow : row.userId = uid
    · simp [hrow, Ne.symm h]
    · simp [hrow]

/-- The codes of one account after a success work that leaves them to the second factor. -/
theorem Passed.codesStep {c : Checking} {u : UserRow} {db₁ : Db} {work : Work} {d : Draws}
    {value : Value} (hp : Passed A db c u db₁) (hdb : db'.recoveryCodes = db₁.recoveryCodes)
    (hwork : (Tx.decide c work d).LeavesCodes uid (.outcome (.success value))) :
    CodesStep A db uid (.decide c work d) (.outcome (.success value)) db' := by
  have hcodes : db'.codes uid = db₁.codes uid := by rw [Db.codes, hdb, Db.codes]
  by_cases hne : c.accountId = uid
  · subst hne
    rcases hp.code work d value with ⟨text, ha, hm, heq⟩ | ⟨heq, hno⟩
    · refine .accepted hwork ha hm (hcodes.trans ?_)
      simp only [Db.codes, heq, Table.delete, List.filter_filter]
      exact List.filter_congr fun row _ => by rw [Bool.and_comm]; simp
    · exact .same hwork hno (hcodes.trans (by rw [Db.codes, heq, Db.codes]))
  · refine .same hwork (fun text ha => ?_) (hcodes.trans (hp.codes_of_ne hne))
    cases ha with
    | mk hid => exact hne hid

/-- The codes of one account after a check of another. -/
theorem Passed.codesStep_of_ne {c : Checking} {u : UserRow} {db₁ : Db} {work : Work} {d : Draws}
    {value : Value} (hp : Passed A db c u db₁) (hne : c.accountId ≠ uid)
    (hcodes : db'.codes uid = db₁.codes uid) :
    CodesStep A db uid (.decide c work d) (.outcome (.success value)) db' := by
  refine .same ⟨fun codes hr => ?_, fun hd => ?_⟩ (fun text ha => ?_)
    (hcodes.trans (hp.codes_of_ne hne))
  · cases hr with
    | regenerate h => exact hne h
  · cases hd with
    | mk h => exact hne h
  · cases ha with
    | mk h => exact hne h

theorem Effect.codes (h : Effect A db tx r db') (uid : Nat) : CodesStep A db uid tx r db' := by
  have hsame : db'.recoveryCodes = db.recoveryCodes → db'.codes uid = db.codes uid := by
    intro heq
    rw [Db.codes, heq, Db.codes]
  cases h with
  | touch | logout | endOtherSessions | failed | resetQueued | placeholderQueued | linkRefused
  | linkConsumed | unlock | resetPassword | retentionAudit | retentionSignIn | setDisabled =>
    exact .same ⟨fun _ h => (by cases h), fun h => by cases h⟩ (fun _ h => by cases h) rfl
  | notEnrolled hr =>
    refine .same ⟨fun codes h => ?_, fun h => by cases h⟩ (fun _ h => by cases h) rfl
    cases h
    exact hr _ rfl
  | refused ho =>
    refine .same ⟨fun codes h => ?_, fun hd => ?_⟩ (fun text ha => ?_) rfl
    · cases h
      exact ho _ rfl
    · cases hd
      exact ho _ rfl
    · cases ha
      exact ho _ rfl
  | pick hp =>
    exact .same ⟨fun _ h => (by cases h), fun h => by cases h⟩ (fun _ h => by cases h)
      (hsame (Mail.pick_mailOnly hp).recoveryCodes)
  | record =>
    exact .same ⟨fun _ h => (by cases h), fun h => by cases h⟩ (fun _ h => by cases h)
      (hsame (Mail.record_mailOnly ..).recoveryCodes)
  | retentionOutbox =>
    refine .same ⟨fun _ h => (by cases h), fun h => by cases h⟩ (fun _ h => by cases h)
      (hsame ?_)
    simp only [Kohaku.retentionOutbox]
    rw [(Mail.giveUpExpired_mailOnly ..).recoveryCodes]
  | login hp | changePassword hp | startTotp hp =>
    exact hp.codesStep rfl ⟨fun _ h => (by cases h), fun h => by cases h⟩
  | enrolled _ _ _ _ hlen hall hrows =>
    have hcodes := codes_replaced uid hrows
    split at hcodes
    · exact .replaced (.confirm ‹_›) hlen hall hcodes
    · rename_i hne
      refine .same ⟨fun codes hr => ?_, fun h => by cases h⟩ (fun _ h => by cases h) hcodes
      cases hr with
      | confirm h => exact hne h
  | regenerateCodes hp hlen hall hrows =>
    have hcodes := codes_replaced uid hrows
    split at hcodes
    · exact .replaced (.regenerate ‹_›) hlen hall hcodes
    · exact hp.codesStep_of_ne ‹_› hcodes
  | @disableTotp c u db₁ _ _ _ hp =>
    have hrows : (db₁.recoveryCodes.delete fun row => row.userId = c.accountId).rows =
        (db₁.recoveryCodes.delete fun row => row.userId = c.accountId).rows ++
          ([] : List Str).map (Recovery.row A c.accountId) := by simp
    have hcodes := codes_replaced uid hrows
    split at hcodes
    · exact .disabled (.mk ‹_›) hcodes
    · exact hp.codesStep_of_ne ‹_› hcodes

/-- A recovery code that is accepted was stored. -/
theorem Effect.code_stored (h : Effect A db tx r db') {text : Str}
    (ha : tx.AcceptsCode db uid text r) : Recovery.row A uid text ∈ db.recoveryCodes := by
  cases ha with
  | @mk c work d value hid he hcode hnorm =>
    obtain ⟨u, db₁, hp⟩ := h.passed
    rcases hp.code work d value with ⟨text', ha', hm, -⟩ | ⟨-, hno⟩
    · cases ha' with
      | mk _ _ _ hnorm' =>
        rw [hnorm] at hnorm'
        cases hnorm'
        exact hid ▸ hm
    · subst hid
      exact absurd (.mk rfl he hcode hnorm) (hno text)

theorem Tx.AcceptsCode.unique {text text' : Str} (h : tx.AcceptsCode db uid text r)
    (h' : tx.AcceptsCode db uid text' r) : text = text' := by
  cases h with
  | mk _ _ _ hn =>
    cases h' with
    | mk _ _ _ hn' =>
      rw [hn] at hn'
      exact Option.some.inj hn'

/-- A code that was stored and is stored after the transaction is the same one still: the
transaction has not replaced the codes, ended the enrollment or accepted this code. -/
theorem Effect.code_kept (h : Effect A db tx r db') {text : Str}
    (hrep : ∀ codes, ¬tx.Replaces uid codes r) (hm : Recovery.row A uid text ∈ db'.recoveryCodes) :
    Recovery.row A uid text ∈ db.recoveryCodes ∧ ¬tx.Disables uid r ∧
      ¬tx.AcceptsCode db uid text r := by
  rw [← Db.row_mem_codes] at hm ⊢
  cases h.codes uid with
  | same hl hno heq => exact ⟨heq ▸ hm, hl.2, hno text⟩
  | accepted hl ha _ heq =>
    rw [heq, List.mem_filter] at hm
    refine ⟨hm.1, hl.2, fun ha' => ?_⟩
    rw [ha'.unique ha] at hm
    simp at hm
  | replaced hr => exact absurd hr (hrep _)
  | disabled _ heq =>
    rw [heq] at hm
    cases hm

/-! ## Second factors in a run -/

namespace Event

variable (A : App) (e : Event)

/-- The step enrolls `uid` with `nonce`, confirmed by a code of `step`. -/
def Confirms (uid : Nat) (nonce : Bytes) (step : Int) (now : Time) : Prop :=
  ∃ tx r, e.Commits A tx r ∧ tx.Confirms A e.pre.db uid nonce step now r

/-- The step accepts a TOTP code of `step` for `uid`, enrolled with `nonce`. -/
def AcceptsTotp (uid : Nat) (nonce : Bytes) (step : Int) (now : Time) : Prop :=
  ∃ tx r, e.Commits A tx r ∧ tx.AcceptsTotp A e.pre.db uid nonce step now r

/-- The step accepts the recovery code `text` of `uid`. -/
def AcceptsCode (uid : Nat) (text : Str) : Prop :=
  ∃ tx r, e.Commits A tx r ∧ tx.AcceptsCode e.pre.db uid text r

/-- The step replaces the recovery codes of `uid` by `codes`. -/
def Replaces (uid : Nat) (codes : List Str) : Prop :=
  ∃ tx r, e.Commits A tx r ∧ tx.Replaces uid codes r

/-- The step ends the enrollment of `uid`. -/
def Disables (uid : Nat) : Prop := ∃ tx r, e.Commits A tx r ∧ tx.Disables uid r

end Event

end Kohaku
