import Kohaku.Server.Tables

/-!
# Reset tokens and the mails that carry them

What a transaction does to the tokens and to the rows of the outbox. Reset tokens of an account are
stopped all at once, in four places: when a new one is issued, when the password is set, when a
token is consumed, and when a reset mail of the account is given up. The last one finds the
tokens by the account of the mail and not by the mail.
-/

namespace Kohaku

open Sql Credentials

/-! ## Giving mails up -/

/-- The columns of an outbox row that no statement changes. -/
def OutboxRow.fixed (r : OutboxRow) : Nat × Str × Option Nat := (r.id, r.kind, r.userId)

/-- The columns of a token that no statement changes. -/
def TokenRow.fixed (t : TokenRow) : Nat × TokenPurpose × Bytes × Option Nat × Time :=
  (t.id, t.purpose, t.tokenHash, t.userId, t.expiresAt)

/-- A reset mail of an account. -/
def OutboxRow.IsReset (r : OutboxRow) (uid : Nat) : Prop :=
  r.kind = Mail.resetLink.name ∧ r.userId = some uid

theorem OutboxRow.id_of_fixed {r s : OutboxRow} (h : r.fixed = s.fixed) : r.id = s.id :=
  congrArg (fun x => x.1) h

theorem OutboxRow.IsReset.of_fixed {r s : OutboxRow} {uid : Nat} (h : r.fixed = s.fixed)
    (hr : s.IsReset uid) : r.IsReset uid :=
  ⟨(congrArg (fun x => x.2.1) h).trans hr.1, (congrArg (fun x => x.2.2) h).trans hr.2⟩

theorem TokenRow.id_of_fixed {t u : TokenRow} (h : t.fixed = u.fixed) : t.id = u.id :=
  congrArg (fun x => x.1) h

theorem TokenRow.purpose_of_fixed {t u : TokenRow} (h : t.fixed = u.fixed) :
    t.purpose = u.purpose :=
  congrArg (fun x => x.2.1) h

theorem TokenRow.tokenHash_of_fixed {t u : TokenRow} (h : t.fixed = u.fixed) :
    t.tokenHash = u.tokenHash :=
  congrArg (fun x => x.2.2.1) h

theorem TokenRow.userId_of_fixed {t u : TokenRow} (h : t.fixed = u.fixed) : t.userId = u.userId :=
  congrArg (fun x => x.2.2.2.1) h

/-- The mails that a transaction gives up. -/
def Tx.givenUp (db : Db) : Tx → List Nat
  | pick now _ | retentionOutbox now _ => expiredIds db now
  | record id outcome endedAt _ =>
    match db.outbox.find? fun row => row.id = id && row.unsent with
    | some row =>
      if outcome = .failed &&
          nextAttempt (row.attempts + 1) endedAt (deadline row.queuedAt row.expiresAt) =
            none then [id]
      else []
    | none => []
  | _ => []

variable {A : App} {db db' : Db} {tx : Tx} {r : Result} {uid : Nat} {unixepoch : Time}

/-- A token and what statements that stop tokens make of it: one that is still unused is the
same. -/
def TokenBack (t t' : TokenRow) : Prop := t.fixed = t'.fixed ∧ (t'.usedAt = none → t' = t)

theorem TokenBack.rfl (t : TokenRow) : TokenBack t t := ⟨by rfl, fun _ => by rfl⟩

theorem TokenBack.trans {t₁ t₂ t₃ : TokenRow} (h₁ : TokenBack t₁ t₂) (h₂ : TokenBack t₂ t₃) :
    TokenBack t₁ t₃ := by
  refine ⟨h₁.1.trans h₂.1, fun hn => ?_⟩
  obtain rfl := h₂.2 hn
  exact h₁.2 hn

theorem TokenBack.stop (now : Time) (t : TokenRow) : TokenBack t { t with usedAt := some now } :=
  ⟨by rfl, fun h => by cases h⟩

/-- Tokens are at most stopped or deleted. -/
abbrev TokensBack (ts ts' : AutoTable TokenRow TokenRow.id) : Prop :=
  AutoTable.Back TokenBack ts ts'

/-- Mails are at most marked or deleted. -/
abbrev OutboxBack (rows rows' : AutoTable OutboxRow OutboxRow.id) : Prop :=
  AutoTable.Back (fun r r' => r.fixed = r'.fixed) rows rows'

theorem TokensBack.stop {ts : AutoTable TokenRow TokenRow.id} (p : TokenRow → Bool) (now : Time) :
    TokensBack ts (ts.update p fun t => { t with usedAt := some now }) :=
  .update _ TokenBack.rfl (TokenBack.stop now)

theorem OutboxBack.trans {rows₁ rows₂ rows₃ : AutoTable OutboxRow OutboxRow.id}
    (h₁ : OutboxBack rows₁ rows₂) (h₂ : OutboxBack rows₂ rows₃) : OutboxBack rows₁ rows₃ :=
  AutoTable.Back.trans Eq.trans h₁ h₂

theorem OutboxBack.delete {rows : AutoTable OutboxRow OutboxRow.id} {p : OutboxRow → Bool} :
    OutboxBack rows (rows.delete p) :=
  AutoTable.Back.delete fun _ => rfl

/-- Stopping an account's tokens leaves none of them unused. -/
theorem useResetTokens_stops {now : Time} {t : TokenRow}
    (h : t ∈ (Mail.useResetTokens db uid now).tokens) : Mail.unusedReset uid t = false := by
  obtain ⟨t₀, ht, rfl⟩ := AutoTable.mem_update.mp h
  split
  · simp [Mail.unusedReset]
  · rename_i hp
    exact Bool.eq_false_iff.mpr hp

/-- The tokens of other accounts are left alone. -/
theorem mem_useResetTokens_of_ne {now : Time} {t : TokenRow} (h : t ∈ db.tokens)
    (hne : t.userId ≠ some uid) : t ∈ (Mail.useResetTokens db uid now).tokens := by
  refine AutoTable.mem_update.mpr ⟨t, h, if_neg ?_⟩
  simp [Mail.unusedReset, hne]

theorem giveUp_outbox (i : Nat) :
    OutboxBack db.outbox (giveUp Mail.kinds unixepoch db i).outbox := by
  rcases Mail.giveUp_cases unixepoch db i with ⟨heq, -⟩ | ⟨_, -, -, -, outbox, heq, hout⟩
  · rw [heq]
    exact .refl fun _ => rfl
  · rw [heq]
    rcases hout with rfl | rfl
    · exact .delete
    · exact .update _ (fun _ => rfl) fun _ => rfl

/-- The other rows stay. -/
theorem mem_giveUp_outbox_of_ne {i : Nat} {row : OutboxRow} (h : row ∈ db.outbox)
    (hne : row.id ≠ i) : row ∈ (giveUp Mail.kinds unixepoch db i).outbox := by
  rcases Mail.giveUp_cases unixepoch db i with ⟨heq, -⟩ | ⟨_, -, -, -, outbox, heq, hout⟩
  · rw [heq]
    exact h
  · rw [heq]
    rcases hout with rfl | rfl
    · exact AutoTable.mem_delete.mpr ⟨h, by simpa using hne⟩
    · exact AutoTable.mem_update.mpr ⟨row, h, if_neg (by simp [hne])⟩

theorem giveUp_tokens {i : Nat} {row : OutboxRow} (hrow : row ∈ db.outbox) (hid : row.id = i)
    (hun : row.unsent = true) :
    (giveUp Mail.kinds unixepoch db i).tokens = Mail.tokensAfter unixepoch db row := by
  rcases Mail.giveUp_cases unixepoch db i with ⟨-, hall⟩ | ⟨row', hrow', hid', -, _, heq, -⟩
  · rw [hall row hrow hid] at hun
    cases hun
  · rw [AutoTable.eq_of_id_eq hrow' hrow (hid'.trans hid.symm)] at heq
    rw [heq]

/-- Giving up an unsent reset mail stops every unused reset token of the mail's account. -/
theorem giveUp_reset {i : Nat} {row : OutboxRow} (hrow : row ∈ db.outbox) (hid : row.id = i)
    (hun : row.unsent = true) (hreset : row.IsReset uid) :
    (giveUp Mail.kinds unixepoch db i).tokens = (Mail.useResetTokens db uid unixepoch).tokens := by
  rw [giveUp_tokens hrow hid hun]
  simp only [Mail.tokensAfter, hreset.1, if_true, hreset.2, Option.elim_some]

/-- Giving up any other row leaves the tokens of the account alone. -/
theorem mem_giveUp_of_other {i : Nat} {t : TokenRow} (ht : t ∈ db.tokens)
    (huid : t.userId = some uid) (h : ∀ row ∈ db.outbox, row.id = i → ¬row.IsReset uid) :
    t ∈ (giveUp Mail.kinds unixepoch db i).tokens := by
  rcases Mail.giveUp_cases unixepoch db i with ⟨heq, -⟩ | ⟨row, hrow, hid, -, _, heq, -⟩
  · rw [heq]
    exact ht
  · rw [heq]
    simp only [Mail.tokensAfter]
    split
    · rename_i hkind
      cases hu : row.userId with
      | none => exact ht
      | some uid' =>
        refine mem_useResetTokens_of_ne ht fun heq => ?_
        rw [huid] at heq
        exact h row hrow hid ⟨hkind, hu.trans heq.symm⟩
    · exact ht

theorem giveUp_back (i : Nat) : TokensBack db.tokens (giveUp Mail.kinds unixepoch db i).tokens := by
  rcases Mail.giveUp_cases unixepoch db i with ⟨heq, -⟩ | ⟨row, -, -, -, _, heq, -⟩
  · rw [heq]
    exact .refl TokenBack.rfl
  · rw [heq]
    simp only [Mail.tokensAfter]
    split
    · cases row.userId with
      | none => exact .refl TokenBack.rfl
      | some uid' => exact .stop _ _
    · exact .refl TokenBack.rfl

/-! ### Several mails -/

/-- The rows of the list are given up one after the other. -/
abbrev giveUpAll (unixepoch : Time) (db : Db) (ids : List Nat) : Db :=
  ids.foldl (giveUp Mail.kinds unixepoch) db

theorem giveUpAll_back (ids : List Nat) :
    TokensBack db.tokens (giveUpAll unixepoch db ids).tokens := by
  induction ids generalizing db with
  | nil => exact .refl TokenBack.rfl
  | cons i ids ih => exact (giveUp_back i).trans TokenBack.trans ih

theorem giveUpAll_outbox (ids : List Nat) :
    OutboxBack db.outbox (giveUpAll unixepoch db ids).outbox := by
  induction ids generalizing db with
  | nil => exact .refl fun _ => rfl
  | cons i ids ih => exact (giveUp_outbox i).trans ih

/-- A token stays when none of the rows is a reset mail of its account. -/
theorem mem_giveUpAll_of_other {ids : List Nat} {t : TokenRow} (ht : t ∈ db.tokens)
    (huid : t.userId = some uid) (h : ∀ row ∈ db.outbox, row.id ∈ ids → ¬row.IsReset uid) :
    t ∈ (giveUpAll unixepoch db ids).tokens := by
  induction ids generalizing db with
  | nil => exact ht
  | cons i ids ih =>
    have ht₁ : t ∈ (giveUp Mail.kinds unixepoch db i).tokens :=
      mem_giveUp_of_other ht huid fun row hrow hid => h row hrow (by simp [hid])
    refine ih ht₁ fun row hrow hid hreset => ?_
    obtain ⟨row₀, hrow₀, hfix⟩ := (giveUp_outbox i).mem hrow
    refine h row₀ hrow₀ ?_ (hreset.of_fixed hfix)
    rw [OutboxRow.id_of_fixed hfix]
    exact List.mem_cons_of_mem _ hid

/-- A reset mail among the rows stops the unused tokens of its account. -/
theorem giveUpAll_stops {ids : List Nat} {row : OutboxRow} {t : TokenRow} (hrow : row ∈ db.outbox)
    (hid : row.id ∈ ids) (hun : row.unsent = true) (hreset : row.IsReset uid)
    (ht : t ∈ (giveUpAll unixepoch db ids).tokens) : Mail.unusedReset uid t = false := by
  induction ids generalizing db with
  | nil => cases hid
  | cons i ids ih =>
    by_cases heq : row.id = i
    · -- stopped here, and a token that is used stays used
      have ht' : t ∈ (giveUpAll unixepoch (giveUp Mail.kinds unixepoch db i) ids).tokens := ht
      obtain ⟨t₁, ht₁, -, hused⟩ := (giveUpAll_back ids).mem ht'
      rw [giveUp_reset hrow heq hun hreset] at ht₁
      cases hu : t.usedAt with
      | some time => simp [Mail.unusedReset, hu]
      | none =>
        rw [hused hu]
        exact useResetTokens_stops ht₁
    · refine ih (mem_giveUp_outbox_of_ne hrow heq) ?_ ht
      exact (List.mem_cons.mp hid).resolve_left heq

/-! ## The three outbox transactions -/

theorem record_tokens {i : Nat} {outcome : Delivery} {endedAt : Time} :
    (record Mail.kinds unixepoch db i outcome endedAt).tokens =
      (giveUpAll unixepoch db ((Tx.record i outcome endedAt unixepoch).givenUp db)).tokens := by
  cases hf : db.outbox.find? fun row => row.id = i && row.unsent with
  | none =>
    simp only [record, Tx.givenUp, hf]
    rfl
  | some row =>
    have hrow := Table.mem_of_find? hf
    have hp := Table.of_find? hf
    rw [Bool.and_eq_true, decide_eq_true_eq] at hp
    cases outcome with
    | sent =>
      simp only [record, Tx.givenUp, hf]
      split <;> rfl
    | failed =>
      cases hnext : nextAttempt (row.attempts + 1) endedAt (deadline row.queuedAt row.expiresAt)
        with
      | some next =>
        simp only [record, Tx.givenUp, hf, hnext]
        rfl
      | none =>
        -- the attempt that is recorded on the row plays no part in giving it up
        have hrow' : { row with attempts := row.attempts + 1 } ∈ db.outbox.update
            (fun r => r.id = i) fun r => { r with attempts := row.attempts + 1 } :=
          AutoTable.mem_update.mpr ⟨row, hrow, if_pos (by simpa using hp.1)⟩
        simp only [record, Tx.givenUp, hf, hnext, decide_true, Bool.and_true, if_true, giveUpAll,
          List.foldl_cons, List.foldl_nil]
        rw [giveUp_tokens hrow hp.1 hp.2]
        have hsame : Mail.tokensAfter unixepoch
            { db with
              outbox := db.outbox.update (fun r => r.id = i)
                fun r => { r with attempts := row.attempts + 1 } }
            { row with attempts := row.attempts + 1 } = Mail.tokensAfter unixepoch db row := rfl
        rw [← hsame]
        exact giveUp_tokens hrow' hp.1 hp.2

theorem record_outbox (i : Nat) (outcome : Delivery) (endedAt : Time) :
    OutboxBack db.outbox (record Mail.kinds unixepoch db i outcome endedAt).outbox := by
  unfold record
  split
  · exact .refl fun _ => rfl
  · dsimp only
    split
    · split
      · exact .delete
      · exact .update _ (fun _ => rfl) fun _ => rfl
    · split
      · exact .update _ (fun _ => rfl) fun _ => rfl
      · refine OutboxBack.trans ?_ (giveUp_outbox i)
        exact .update _ (fun _ => rfl) fun _ => rfl

theorem pick_tokens {now : Time} {p : Pick} (h : pick Mail.kinds unixepoch db now = some (p, db')) :
    db'.tokens = (giveUpAll unixepoch db (expiredIds db now)).tokens ∧
      OutboxBack db.outbox db'.outbox := by
  rw [(pick_cases h).1]
  exact ⟨rfl, (giveUpAll_outbox _).trans .delete⟩

/-! ## The effect on tokens -/

/-- The transaction issues a reset token of `uid`. -/
inductive Tx.Issues (db : Db) (uid : Nat) (token : Vector UInt8 32) (now : Time) :
    Tx → Result → Prop
  | form : resettable db email = some uid →
      Tx.Issues db uid token now (.queueReset email now token) .unit
  | cli : accountOf db email = some uid →
    Tx.Issues db uid token now (.resetPassword email now token) (.link link)

/-- The transaction gives up a reset mail of `uid`. -/
def Tx.GivesUpReset (db : Db) (uid : Nat) (tx : Tx) : Prop :=
  ∃ row ∈ db.outbox, row.id ∈ tx.givenUp db ∧ row.IsReset uid

/-- The transaction stops the reset tokens of `uid`. -/
def Tx.Stops (db : Db) (uid : Nat) (tx : Tx) (r : Result) : Prop :=
  (∃ token now, tx.Issues db uid token now r) ∨ (∃ phc, tx.SetsPassword db uid phc r) ∨
    tx.GivesUpReset db uid

/-- Only unsent mails are given up. -/
theorem Tx.exists_of_givenUp {i : Nat} (h : i ∈ tx.givenUp db) :
    ∃ row ∈ db.outbox, row.id = i ∧ row.unsent = true := by
  have hexpired : ∀ {now}, i ∈ expiredIds db now → ∃ row ∈ db.outbox, row.id = i ∧
      row.unsent = true := by
    intro now h
    obtain ⟨row, hrow, hid⟩ := List.mem_map.mp h
    rw [List.mem_filter, Bool.and_eq_true] at hrow
    exact ⟨row, hrow.1, hid, hrow.2.1⟩
  cases tx with
  | pick | retentionOutbox => exact hexpired h
  | record =>
    simp only [givenUp] at h
    split at h
    · rename_i row hf
      split at h
      · have hp := Table.of_find? hf
        rw [Bool.and_eq_true, decide_eq_true_eq, ← List.mem_singleton.mp h] at hp
        exact ⟨row, Table.mem_of_find? hf, hp⟩
      · cases h
    · cases h
  | _ => cases h

/-- A transaction at most stops and deletes tokens, or it issues one. -/
theorem Effect.tokens (h : Effect A db tx r db') :
    TokensBack db.tokens db'.tokens ∨ ∃ uid token now, tx.Issues db uid token now r ∧
      (∀ t ∈ db.tokens, t.tokenHash ≠ A.sha256 (asBytes (tokenText A.base64 token))) ∧
      db'.tokens = issuedTokens A db uid now token := by
  cases h with
  | touch | logout | notEnrolled | enrolled | endOtherSessions | refused | failed | linkRefused
  | unlock | retentionAudit | setDisabled => exact .inl (.refl TokenBack.rfl)
  | login hp | startTotp hp | disableTotp hp | regenerateCodes hp =>
    left
    rw [← (SecondFactor.sessions hp.factor).2.2.1]
    exact .refl TokenBack.rfl
  | changePassword hp =>
    left
    rw [← (SecondFactor.sessions hp.factor).2.2.1]
    exact .stop _ _
  | resetQueued hr hfresh => exact .inr ⟨_, _, _, .form hr, hfresh, rfl⟩
  | resetPassword ha hfresh => exact .inr ⟨_, _, _, .cli ha, hfresh, rfl⟩
  | placeholderQueued => exact .inl (.stop _ _)
  | linkConsumed =>
    exact .inl ((TokensBack.stop _ _).trans TokenBack.trans (TokensBack.stop _ _))
  | retentionSignIn => exact .inl (.delete TokenBack.rfl)
  | pick hp =>
    rw [(pick_tokens hp).1]
    exact .inl (giveUpAll_back _)
  | record =>
    rw [record_tokens]
    exact .inl (giveUpAll_back _)
  | retentionOutbox => exact .inl (giveUpAll_back _)

/-- A token after a transaction was there before, no less used, or was issued by it under a hash
that was not stored. -/
theorem Effect.token_back (h : Effect A db tx r db') {t' : TokenRow} (ht : t' ∈ db'.tokens) :
    (∃ t ∈ db.tokens, TokenBack t t') ∨
      ∃ uid token now, tx.Issues db uid token now r ∧
        t' = newResetToken A uid now token (db.tokens.seq + 1) ∧
        ∀ t ∈ db.tokens, t.tokenHash ≠ t'.tokenHash := by
  rcases h.tokens with hback | ⟨uid, token, now, hi, hfresh, htok⟩
  · exact .inl (hback.mem ht)
  · rw [htok] at ht
    rcases AutoTable.mem_insertNew.mp ht with ht | rfl
    · exact .inl ((TokensBack.stop _ _).mem ht)
    · exact .inr ⟨uid, token, now, hi, rfl, hfresh⟩

/-- Issuing a token stores it under the next id. -/
theorem Effect.issued (h : Effect A db tx r db') {token : Vector UInt8 32} {now : Time}
    (hi : tx.Issues db uid token now r) :
    newResetToken A uid now token (db.tokens.seq + 1) ∈ db'.tokens ∧
      db'.tokens.seq = db.tokens.seq + 1 ∧
      ∀ t' ∈ db'.tokens, t'.id ≤ db.tokens.seq → Mail.unusedReset uid t' = false := by
  have key : newResetToken A uid now token (db.tokens.seq + 1) ∈ issuedTokens A db uid now token ∧
      (issuedTokens A db uid now token).seq = db.tokens.seq + 1 ∧
      ∀ t' ∈ issuedTokens A db uid now token, t'.id ≤ db.tokens.seq →
        Mail.unusedReset uid t' = false := by
    refine ⟨AutoTable.mem_insertNew.mpr (.inr rfl), rfl, fun t' ht' hle => ?_⟩
    rcases AutoTable.mem_insertNew.mp ht' with hm | rfl
    · exact useResetTokens_stops hm
    · exact absurd hle (Nat.not_succ_le_self _)
  cases hi with
  | form hr =>
    cases h with
    | resetQueued hr' =>
      rw [hr] at hr'
      cases hr'
      exact key
    | placeholderQueued hr' =>
      rw [hr] at hr'
      cases hr'
  | cli ha =>
    cases h with
    | resetPassword ha' =>
      rw [ha] at ha'
      cases ha'
      exact key

theorem Effect.tokens_grows (h : Effect A db tx r db') :
    AutoTable.Grows TokenBack db.tokens db'.tokens := by
  rcases h.tokens with hback | ⟨uid, token, now, -, -, htok⟩
  · exact ⟨_, hback, .inl rfl⟩
  · exact ⟨_, TokensBack.stop _ _, .inr ⟨_, _, htok⟩⟩

/-- The outbox transactions as to the tokens: some mails are given up. -/
theorem Effect.givenUp_tokens (h : Effect A db tx r db') (hg : tx.givenUp db ≠ []) :
    ∃ unixepoch, db'.tokens = (giveUpAll unixepoch db (tx.givenUp db)).tokens := by
  cases h with
  | pick hp => exact ⟨_, (pick_tokens hp).1⟩
  | record => exact ⟨_, record_tokens⟩
  | retentionOutbox => exact ⟨_, rfl⟩
  | _ => exact absurd rfl hg

/-- A transaction that stops the tokens of `uid` leaves none of those that exist unused. -/
theorem Effect.stops (h : Effect A db tx r db') (hs : tx.Stops db uid r) {t' : TokenRow}
    (ht : t' ∈ db'.tokens) (hle : t'.id ≤ db.tokens.seq) : Mail.unusedReset uid t' = false := by
  rcases hs with ⟨token, now, hi⟩ | ⟨phc, hp⟩ | ⟨row, hrow, hid, hreset⟩
  · exact (h.issued hi).2.2 t' ht hle
  · cases hp with
    | change hid =>
      cases h with
      | refused ho => exact absurd rfl (ho _)
      | changePassword =>
        rw [← hid]
        exact useResetTokens_stops ht
    | reset hsubj =>
      cases h with
      | linkConsumed hm hacc huniq hid =>
        rw [Tx.subject_linkSubmit hm hacc huniq, hid] at hsubj
        cases hsubj
        exact useResetTokens_stops ht
  · obtain ⟨unixepoch, htok⟩ := h.givenUp_tokens (List.ne_nil_of_mem hid)
    rw [htok] at ht
    obtain ⟨row', hrow', hid', hun⟩ := Tx.exists_of_givenUp hid
    rw [AutoTable.eq_of_id_eq hrow' hrow hid'] at hun
    exact giveUpAll_stops hrow hid hun hreset ht

/-- Any other transaction leaves an unused token of `uid` in place; sign-in retention once it has
expired. -/
theorem Effect.token_kept (h : Effect A db tx r db') {t : TokenRow} (ht : t ∈ db.tokens)
    (huid : t.userId = some uid) (hun : t.usedAt = none) (hs : ¬tx.Stops db uid r)
    (hret : ∀ now, tx = .retentionSignIn now → now < t.expiresAt) : t ∈ db'.tokens := by
  have hother : ∀ row ∈ db.outbox, row.id ∈ tx.givenUp db → ¬row.IsReset uid :=
    fun row hrow hid hreset => hs (.inr (.inr ⟨row, hrow, hid, hreset⟩))
  have hissued : ∀ {uid' now token}, (uid = uid' → tx.Issues db uid' token now r) →
      t ∈ issuedTokens A db uid' now token := by
    intro uid' now token hi
    refine AutoTable.mem_insertNew.mpr (.inl (mem_useResetTokens_of_ne ht fun heq => ?_))
    obtain rfl : uid = uid' := Option.some.inj (huid.symm.trans heq)
    exact hs (.inl ⟨_, _, hi rfl⟩)
  cases h with
  | touch | logout | notEnrolled | enrolled | endOtherSessions | refused | failed | linkRefused
  | unlock | retentionAudit | setDisabled => exact ht
  | login hp | startTotp hp | disableTotp hp | regenerateCodes hp =>
    exact (SecondFactor.sessions hp.factor).2.2.1 ▸ ht
  | @changePassword c _ _ _ _ _ _ hp =>
    refine mem_useResetTokens_of_ne ?_ fun heq => ?_
    · rw [← (SecondFactor.sessions hp.factor).2.2.1] at ht
      exact ht
    · obtain rfl : uid = c.accountId := Option.some.inj (huid.symm.trans heq)
      exact hs (.inr (.inl ⟨_, .change rfl⟩))
  | resetQueued hr => exact hissued fun _ => .form hr
  | resetPassword ha => exact hissued fun _ => .cli ha
  | placeholderQueued =>
    refine AutoTable.mem_update.mpr ⟨t, ht, if_neg ?_⟩
    simp [huid]
  | @linkConsumed _ _ _ uid' _ _ _ hm hacc huniq hid hu =>
    have hne : t.userId ≠ some uid' := by
      intro heq
      obtain rfl : uid = uid' := Option.some.inj (huid.symm.trans heq)
      exact hs (.inr (.inl ⟨_, .reset ((Tx.subject_linkSubmit hm hacc huniq).trans hid)⟩))
    refine mem_useResetTokens_of_ne (AutoTable.mem_update.mpr ⟨t, ht, if_neg ?_⟩) hne
    intro hacc'
    rw [huniq t ht hacc'] at hne
    exact hne hid
  | retentionSignIn =>
    refine AutoTable.mem_delete.mpr ⟨ht, ?_⟩
    simp [hun, hret _ rfl]
  | pick hp =>
    rw [(pick_tokens hp).1]
    exact mem_giveUpAll_of_other ht huid hother
  | record =>
    rw [record_tokens]
    exact mem_giveUpAll_of_other ht huid hother
  | retentionOutbox => exact mem_giveUpAll_of_other ht huid hother

/-- A transaction at most marks and deletes mails, or it queues one; a reset mail only for an
account that it issues a token for. -/
theorem Effect.outbox (h : Effect A db tx r db') :
    OutboxBack db.outbox db'.outbox ∨ ∃ mk hmk, db'.outbox = db.outbox.insertNew mk hmk ∧
      ∀ uid n, (mk n).IsReset uid → ∃ email now token, tx = .queueReset email now token ∧
      r = .unit ∧ resettable db email = some uid := by
  have hchanged : ∀ i now uid n,
      ¬((passwordChangedMail A i now).row now (some i) none n).IsReset uid :=
    fun i now uid n hr => absurd hr.1
      (show Mail.passwordChanged.name ≠ Mail.resetLink.name by decide)
  cases h with
  | touch | logout | notEnrolled | enrolled | endOtherSessions | refused | linkRefused | unlock
  | resetPassword | retentionAudit | retentionSignIn | setDisabled =>
    exact .inl (.refl fun _ => rfl)
  | login hp | startTotp hp | disableTotp hp | regenerateCodes hp =>
    left
    rw [← (SecondFactor.sessions hp.factor).2.2.2]
    exact .refl fun _ => rfl
  | failed =>
    simp only [afterFailure]
    split
    · have hne : Mail.lockout.name ≠ Mail.resetLink.name := by decide
      exact .inr ⟨_, by intro _; rfl, rfl, fun uid n hr => absurd hr.1 hne⟩
    · exact .inl (.refl fun _ => rfl)
  | changePassword hp =>
    right
    rw [← (SecondFactor.sessions hp.factor).2.2.2]
    exact ⟨_, by intro _; rfl, rfl, fun uid n hr => (hchanged _ _ _ _ hr).elim⟩
  | linkConsumed =>
    exact .inr ⟨_, by intro _; rfl, rfl, fun uid n hr => (hchanged _ _ _ _ hr).elim⟩
  | placeholderQueued =>
    refine .inr ⟨_, by intro _; rfl, rfl, fun uid n hr => ?_⟩
    cases hr.2
  | resetQueued hr =>
    refine .inr ⟨_, by intro _; rfl, rfl, fun uid n hreset => ?_⟩
    cases hreset.2
    exact ⟨_, _, _, rfl, rfl, hr⟩
  | pick hp => exact .inl (pick_tokens hp).2
  | record => exact .inl (record_outbox ..)
  | retentionOutbox => exact .inl ((giveUpAll_outbox _).trans .delete)

/-- A row of the outbox after a transaction was there before, or is the one it queued. -/
theorem Effect.outbox_back (h : Effect A db tx r db') {row' : OutboxRow}
    (hrow : row' ∈ db'.outbox) :
    (∃ row ∈ db.outbox, row.fixed = row'.fixed) ∨ row'.id = db.outbox.seq + 1 ∧
      ∀ uid, row'.IsReset uid → ∃ email now token, tx = .queueReset email now token ∧ r = .unit ∧
        resettable db email = some uid := by
  rcases h.outbox with hback | ⟨mk, hmk, hout, hreset⟩
  · exact .inl (hback.mem hrow)
  · rw [hout] at hrow
    rcases AutoTable.mem_insertNew.mp hrow with hrow | rfl
    · exact .inl ⟨row', hrow, rfl⟩
    · exact .inr ⟨hmk _, fun uid hr => hreset uid _ hr⟩

theorem Effect.outbox_grows (h : Effect A db tx r db') :
    AutoTable.Grows (fun r r' => r.fixed = r'.fixed) db.outbox db'.outbox := by
  rcases h.outbox with hback | ⟨mk, hmk, hout, -⟩
  · exact ⟨_, hback, .inl rfl⟩
  · exact ⟨_, .refl fun _ => rfl, .inr ⟨mk, hmk, hout⟩⟩

/-! ## Steps and runs -/

namespace Event

/-- The step issues the reset token `token` of `uid`. -/
def Issues (A : App) (e : Event) (uid : Nat) (token : Vector UInt8 32) (now : Time) : Prop :=
  ∃ tx r, e.Commits A tx r ∧ tx.Issues e.pre.db uid token now r

/-- The step sets the password of `uid`. -/
def SetsPassword (A : App) (e : Event) (uid : Nat) : Prop :=
  ∃ tx r phc, e.Commits A tx r ∧ tx.SetsPassword e.pre.db uid phc r

/-- The step gives up the outbox row `i`. -/
def GivesUp (A : App) (e : Event) (i : Nat) : Prop :=
  ∃ tx r, e.Commits A tx r ∧ i ∈ tx.givenUp e.pre.db

/-- The step issues `token` for `uid` and queues the outbox row `i` that carries it. The command
prints its link and queues nothing. -/
def Carries (A : App) (e : Event) (uid : Nat) (token : Vector UInt8 32) (i : Nat) : Prop :=
  ∃ email now, e.Commits A (.queueReset email now token) .unit ∧
    resettable e.pre.db email = some uid ∧ i = e.pre.db.outbox.seq + 1

variable {e : Event} {token : Vector UInt8 32} {now : Time} {i : Nat}

theorem Carries.issues (h : e.Carries A uid token i) : ∃ now, e.Issues A uid token now := by
  obtain ⟨email, now, hc, hr, -⟩ := h
  exact ⟨now, _, _, hc, .form hr⟩

/-- A step that queues a row issues the token that the row carries. -/
theorem Carries.token_eq {uid' i : Nat} {token' : Vector UInt8 32} (h : e.Carries A uid' token' i)
    (hi : e.Issues A uid token now) : token' = token := by
  obtain ⟨email, now', hc, -, -⟩ := h
  obtain ⟨tx, r, hc', hi⟩ := hi
  obtain ⟨rfl, rfl⟩ := hc.unique hc'
  cases hi
  rfl

/-- The row that carries a token is a reset mail of the account with the token's link in its
text. -/
theorem Carries.row (h : e.Carries A uid token i) : ∃ row ∈ e.post.db.outbox, row.id = i ∧
    row.IsReset uid ∧ ∃ now, row.body =
      (Mail.resetLinkText A.mainOrigin now (resetUrl A token)).body := by
  obtain ⟨email, now, hc, hr, rfl⟩ := h
  have heff := hc.effect
  generalize e.post.db = db' at heff
  cases heff with
  | resetQueued hr' =>
    rw [hr] at hr'
    cases hr'
    refine ⟨(resetMail A (resetUrl A token) (.user uid) false now).row now (some uid) none
      (e.pre.db.outbox.seq + 1), ?_, rfl, ⟨rfl, rfl⟩, now, rfl⟩
    simp only [AutoTable.mem_insertNew, or_true]
  | placeholderQueued hr' =>
    rw [hr] at hr'
    cases hr'

/-- A step that issues a token for `uid`, sets its password or gives up one of its reset mails. -/
def Stops (A : App) (e : Event) (uid : Nat) : Prop :=
  ∃ tx r, e.Commits A tx r ∧ tx.Stops e.pre.db uid r

theorem Issues.stops (h : e.Issues A uid token now) : e.Stops A uid := by
  obtain ⟨tx, r, hc, hi⟩ := h
  exact ⟨tx, r, hc, .inl ⟨token, now, hi⟩⟩

theorem SetsPassword.stops (h : e.SetsPassword A uid) : e.Stops A uid := by
  obtain ⟨tx, r, phc, hc, hp⟩ := h
  exact ⟨tx, r, hc, .inr (.inl ⟨phc, hp⟩)⟩

/-- A step that gives up the row `i` stops the tokens of the account it is a reset mail of. -/
theorem GivesUp.stops (h : e.GivesUp A i)
    (hreset : ∀ row ∈ e.pre.db.outbox, row.id = i → row.IsReset uid) : e.Stops A uid := by
  obtain ⟨tx, r, hc, hg⟩ := h
  obtain ⟨row, hrow, rfl, -⟩ := Tx.exists_of_givenUp hg
  exact ⟨tx, r, hc, .inr (.inr ⟨row, hrow, hg, hreset row hrow rfl⟩)⟩

/-- A token after a step was there before it, or was issued by it. -/
theorem token_back (hs : e.pre.step A e.label = some e.post) {t : TokenRow}
    (ht : t ∈ e.post.db.tokens) :
    (∃ t₀ ∈ e.pre.db.tokens, TokenBack t₀ t) ∨ ∃ uid token now, e.Issues A uid token now ∧
      t = newResetToken A uid now token (e.pre.db.tokens.seq + 1) ∧
      ∀ t₀ ∈ e.pre.db.tokens, t₀.tokenHash ≠ t.tokenHash := by
  rcases commits_or_same hs with hsame | ⟨tx, r, hc⟩
  · rw [hsame] at ht
    exact .inl ⟨t, ht, .rfl t⟩
  · refine (hc.effect.token_back ht).imp_right ?_
    rintro ⟨uid, token, now, hi, heq, hne⟩
    exact ⟨uid, token, now, ⟨tx, r, hc, hi⟩, heq, hne⟩

theorem tokens_grows (hs : e.pre.step A e.label = some e.post) :
    AutoTable.Grows TokenBack e.pre.db.tokens e.post.db.tokens := by
  rcases commits_or_same hs with hsame | ⟨tx, r, hc⟩
  · rw [hsame]
    exact ⟨_, .refl TokenBack.rfl, .inl rfl⟩
  · exact hc.effect.tokens_grows

theorem outbox_grows (hs : e.pre.step A e.label = some e.post) :
    AutoTable.Grows (fun r r' => r.fixed = r'.fixed) e.pre.db.outbox e.post.db.outbox := by
  rcases commits_or_same hs with hsame | ⟨tx, r, hc⟩
  · rw [hsame]
    exact ⟨_, .refl fun _ => rfl, .inl rfl⟩
  · exact hc.effect.outbox_grows

/-- A reset mail that was not there before a step carries the token that the step issues. -/
theorem mail_back (hs : e.pre.step A e.label = some e.post)
    (hpre : ¬∃ row ∈ e.pre.db.outbox, row.id = i ∧ row.IsReset uid)
    (hpost : ∃ row ∈ e.post.db.outbox, row.id = i ∧ row.IsReset uid) :
    ∃ token, e.Carries A uid token i := by
  rcases commits_or_same hs with hsame | ⟨tx, r, hc⟩
  · rw [hsame] at hpost
    exact absurd hpost hpre
  · obtain ⟨row', hrow', hid, hreset⟩ := hpost
    rcases hc.effect.outbox_back hrow' with ⟨row, hrow, hfix⟩ | ⟨hid', hnew⟩
    · exact absurd ⟨row, hrow, (OutboxRow.id_of_fixed hfix).trans hid, hreset.of_fixed hfix⟩ hpre
    · obtain ⟨email, now, token, rfl, rfl, hr⟩ := hnew uid hreset
      exact ⟨token, email, now, hc, hr, hid.symm.trans hid'⟩

end Event

namespace World.Run

variable {w₀ w : World} {h : List Event} {i : Nat}

/-- A token that is unused was issued by a step, and since then no step has stopped the tokens of
its account. -/
theorem live_token (hinit : w₀.Init) (H : World.Run A w₀ h w) {t : TokenRow} (ht : t ∈ w.db.tokens)
    (hun : t.usedAt = none) :
    ∃ h₁ e h₂ uid token now, h = h₁ ++ e :: h₂ ∧ e.Issues A uid token now ∧
      t = newResetToken A uid now token (e.pre.db.tokens.seq + 1) ∧
      ∀ e' ∈ h₂, t ∈ e'.pre.db.tokens ∧ ¬e'.Stops A uid := by
  obtain ⟨h₁, e, h₂, rfl, hpre, hpost, hkeep⟩ :=
    H.origin (fun w => t ∈ w.db.tokens) (by rw [hinit.tokens]; simp) ht
  obtain ⟨-, hs, -⟩ := H.split
  rcases Event.token_back hs hpost with ⟨t₀, ht₀, hback⟩ | ⟨uid, token, now, hi, heq, -⟩
  · rw [← hback.2 hun] at ht₀
    exact absurd ht₀ hpre
  · refine ⟨h₁, e, h₂, uid, token, now, rfl, hi, heq, fun e' he' => ⟨(hkeep e' he').1, ?_⟩⟩
    -- a step that stopped the account's tokens would have used this one
    rintro ⟨tx, r, hc, hstop⟩
    have hused := hc.effect.stops hstop (hkeep e' he').2 (AutoTable.id_le_seq (hkeep e' he').1)
    rw [heq] at hused
    simp [Mail.unusedReset] at hused

/-- A reset mail that was queued in a run carries the token issued by the step that queued it. -/
theorem mail_origin (H : World.Run A w₀ h w)
    (h0 : ¬∃ row ∈ w₀.db.outbox, row.id = i ∧ row.IsReset uid)
    (hw : ∃ row ∈ w.db.outbox, row.id = i ∧ row.IsReset uid) :
    ∃ h₁ e h₂ token, h = h₁ ++ e :: h₂ ∧ e.Carries A uid token i := by
  obtain ⟨h₁, e, h₂, rfl, hpre, hpost, -⟩ :=
    H.origin (fun w => ∃ row ∈ w.db.outbox, row.id = i ∧ row.IsReset uid) h0 hw
  obtain ⟨-, hs, -⟩ := H.split
  obtain ⟨token, hcar⟩ := Event.mail_back hs hpre hpost
  exact ⟨h₁, e, h₂, token, rfl, hcar⟩

/-- After the step that queued it, the row that carries a token of `uid` is a reset mail of
`uid`. -/
theorem carrier {e : Event} {token : Vector UInt8 32} (hcar : e.Carries A uid token i)
    (H : World.Run A e.post h w) : ∀ row ∈ w.db.outbox, row.id = i → row.IsReset uid := by
  obtain ⟨row, hrow, hid, hreset, -⟩ := hcar.row
  have key := H.invariant
    (fun w => i ≤ w.db.outbox.seq ∧ ∀ row ∈ w.db.outbox, row.id = i → row.IsReset uid) ?_ ?_
  · exact key.2
  · refine ⟨hid ▸ AutoTable.id_le_seq hrow, fun row' hrow' hid' => ?_⟩
    rw [AutoTable.eq_of_id_eq hrow' hrow (hid'.trans hid.symm)]
    exact hreset
  · intro m l u hI hs
    have hgrow := Event.outbox_grows (e := ⟨m, l, u⟩) hs
    exact ⟨hI.1.trans hgrow.seq_le, hgrow.kept (fun hfix => OutboxRow.id_of_fixed hfix)
      (fun hfix hr => hr.of_fixed hfix.symm) hI.1 hI.2⟩

/-- After the step that issued it, a token keeps its fixed columns under its id. -/
theorem issued_fixed {e : Event} {token : Vector UInt8 32} {now : Time}
    (hi : e.Issues A uid token now) (H : World.Run A e.post h w) :
    e.pre.db.tokens.seq < w.db.tokens.seq ∧ ∀ t ∈ w.db.tokens, t.id = e.pre.db.tokens.seq + 1 →
      t.fixed = (newResetToken A uid now token (e.pre.db.tokens.seq + 1)).fixed := by
  obtain ⟨tx, r, hc, hi⟩ := hi
  obtain ⟨hmem, hseq, -⟩ := hc.effect.issued hi
  refine H.invariant (fun w => e.pre.db.tokens.seq < w.db.tokens.seq ∧
    ∀ t ∈ w.db.tokens, t.id = e.pre.db.tokens.seq + 1 →
      t.fixed = (newResetToken A uid now token (e.pre.db.tokens.seq + 1)).fixed) ?_ ?_
  · refine ⟨hseq ▸ Nat.lt_succ_self _, fun t ht hid => ?_⟩
    rw [AutoTable.eq_of_id_eq ht hmem hid]
  · intro m l u hI hs
    have hgrow := Event.tokens_grows (e := ⟨m, l, u⟩) hs
    exact ⟨hI.1.trans_le hgrow.seq_le, hgrow.kept (fun hb => TokenRow.id_of_fixed hb.1)
      (fun hb hfix => hb.1.symm.trans hfix) hI.1 hI.2⟩

/-- The hash of a token identifies it. -/
theorem tokens_unique (hinit : w₀.Init) (H : World.Run A w₀ h w) {t t' : TokenRow}
    (ht : t ∈ w.db.tokens) (ht' : t' ∈ w.db.tokens) (heq : t.tokenHash = t'.tokenHash) :
    t = t' := by
  refine H.invariant (fun w => ∀ t ∈ w.db.tokens, ∀ t' ∈ w.db.tokens,
    t.tokenHash = t'.tokenHash → t = t') ?_ ?_ t ht t' ht' heq
  · rw [hinit.tokens]
    intro t ht
    simp at ht
  · intro m l u hI hs t ht t' ht' heq
    have hback := fun {t} => Event.token_back (e := ⟨m, l, u⟩) hs (t := t)
    rcases hback ht with ⟨t₀, ht₀, hb⟩ | ⟨_, _, _, -, hnew, hne⟩
    · rcases hback ht' with ⟨t₀', ht₀', hb'⟩ | ⟨_, _, _, -, -, hne⟩
      · have h₀ := hI t₀ ht₀ t₀' ht₀' (by
          rw [TokenRow.tokenHash_of_fixed hb.1, TokenRow.tokenHash_of_fixed hb'.1, heq])
        refine AutoTable.eq_of_id_eq ht ht' ?_
        rw [← TokenRow.id_of_fixed hb.1, h₀, TokenRow.id_of_fixed hb'.1]
      · exact absurd ((TokenRow.tokenHash_of_fixed hb.1).trans heq) (hne t₀ ht₀)
    · rcases hback ht' with ⟨t₀', ht₀', hb'⟩ | ⟨_, _, _, -, hnew', -⟩
      · exact absurd ((TokenRow.tokenHash_of_fixed hb'.1).trans heq.symm) (hne t₀' ht₀')
      · refine AutoTable.eq_of_id_eq ht ht' ?_
        rw [hnew, hnew']

end World.Run

end Kohaku
