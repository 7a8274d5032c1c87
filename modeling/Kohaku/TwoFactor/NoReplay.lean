import Kohaku.TwoFactor.Factors

/-!
# No second factor is accepted twice

A nonce is drawn for one session, waits there and is enrolled from there at most once. From the
first acceptance on it is pending nowhere, and whenever the account is enrolled with it the last
step is at least the one accepted (`Spent`), so the steps accepted for it go up. A recovery code
that is stored was issued by the last `replace` of the account and has not been accepted since.
-/

namespace Kohaku

open Sql Credentials World

/-- The nonce waits on a session or some account is enrolled with it. -/
def Db.HasNonce (db : Db) (n : Bytes) : Prop :=
  (∃ s ∈ db.sessions.rows, s.pendingTotpNonce = some n) ∨ ∃ u ∈ db.users.rows, u.totpNonce = some n

instance (db : Db) (n : Bytes) : Decidable (db.HasNonce n) :=
  inferInstanceAs (Decidable (_ ∨ _))

/-- A nonce that `e` puts on a session is not in use before `e'`. -/
def Event.FreshSince (e' e : Event) : Prop :=
  ∀ s ∈ e.post.db.sessions.rows, ∀ n ∈ s.pendingTotpNonce.toList,
    (∀ s₀ ∈ e.pre.db.sessions.rows, s₀.id = s.id → s₀.pendingTotpNonce ≠ some n) →
    ¬e'.pre.db.HasNonce n

instance (e' e : Event) : Decidable (e'.FreshSince e) :=
  inferInstanceAs (Decidable (∀ s ∈ e.post.db.sessions.rows, ∀ n ∈ s.pendingTotpNonce.toList, _))

/-- The nonces drawn in the run are fresh: none was in use before. -/
def FreshNonces (h : List Event) : Prop :=
  (∀ e ∈ h, e.FreshSince e) ∧ h.Pairwise Event.FreshSince

instance (h : List Event) : Decidable (FreshNonces h) := inferInstanceAs (Decidable (_ ∧ _))

/-- The step accepts a code of `step` for the nonce: `confirm_totp` or a check. -/
def Event.AcceptsStep (A : App) (e : Event) (uid : Nat) (n : Bytes) (step : Int) (now : Time) :
    Prop :=
  e.Confirms A uid n step now ∨ e.AcceptsTotp A uid n step now

/-- SHA-256 tells recovery codes apart. -/
def InjectiveOnCodes (A : App) : Prop :=
  ∀ c c', Recovery.IsRecoveryCode c → Recovery.IsRecoveryCode c' →
    A.sha256 (asBytes c) = A.sha256 (asBytes c') → c = c'

variable {A : App} {w₀ w : World} {h : List Event} {e e' : Event} {uid : Nat} {n : Bytes}
  {step step' : Int} {now now' : Time} {text : Str}

theorem Db.hasNonce_of_nonce? {db : Db} (h : db.nonce? uid = some n) : db.HasNonce n := by
  obtain ⟨u, hu, hn⟩ := Option.bind_eq_some_iff.mp h
  exact .inr ⟨u, Db.mem_of_user? hu, hn⟩

/-! ## One use of a nonce -/

theorem Event.Confirms.pending (hc : e.Confirms A uid n step now) :
    ∃ s ∈ e.pre.db.sessions, s.pendingTotpNonce = some n := by
  obtain ⟨tx, r, -, hc⟩ := hc
  cases hc with
  | mk _ hs _ hn => exact ⟨_, hs, hn⟩

theorem Event.AcceptsTotp.nonce? (ha : e.AcceptsTotp A uid n step now) :
    e.pre.db.nonce? uid = some n := by
  obtain ⟨tx, r, -, ha⟩ := ha
  cases ha with
  | mk _ hn => exact hn

/-- A nonce that is accepted is in use before. -/
theorem Event.AcceptsStep.hasNonce (ha : e.AcceptsStep A uid n step now) :
    e.pre.db.HasNonce n := by
  rcases ha with hc | ha
  · exact .inl hc.pending
  · exact Db.hasNonce_of_nonce? ha.nonce?

/-- The enrollment of an account changes by `confirm_totp` and `disable_totp` only. -/
theorem Event.enrolled (hs : e.pre.step A e.label = some e.post)
    (hpost : e.post.db.nonce? uid = some n) :
    e.pre.db.nonce? uid = some n ∨ ∃ step now, e.Confirms A uid n step now := by
  rcases Event.commits_or_same hs with hsame | ⟨tx, r, hc⟩
  · exact .inl (hsame ▸ hpost)
  · cases hc.effect.factor uid with
    | same _ hn | accepted _ _ hn => exact .inl (hn ▸ hpost)
    | @confirmed m step now hconf hn =>
      rw [hn] at hpost
      cases hpost
      exact .inr ⟨step, now, tx, r, hc, hconf⟩
    | disabled _ _ hn =>
      rw [hn] at hpost
      cases hpost

/-- A nonce waits on at most one session, and only while no account is enrolled with it. -/
structure Db.Unmixed (db : Db) : Prop where
  one : ∀ s ∈ db.sessions, ∀ s' ∈ db.sessions, ∀ n, s.pendingTotpNonce = some n →
    s'.pendingTotpNonce = some n → s.id = s'.id
  free : ∀ s ∈ db.sessions, ∀ n, s.pendingTotpNonce = some n → ∀ uid, db.nonce? uid ≠ some n

/-- A pending nonce was pending on the session before or is fresh. -/
theorem Event.pending_cases (hf : e'.FreshSince e) {s : SessionRow} (hs : s ∈ e.post.db.sessions)
    (hp : s.pendingTotpNonce = some n) :
    (∃ s₀ ∈ e.pre.db.sessions, s₀.id = s.id ∧ s₀.pendingTotpNonce = some n) ∨
      ¬e'.pre.db.HasNonce n := by
  by_cases hold : ∃ s₀ ∈ e.pre.db.sessions, s₀.id = s.id ∧ s₀.pendingTotpNonce = some n
  · exact .inl hold
  · right
    apply hf s hs n (by rw [hp]; exact List.mem_singleton_self n)
    intro s₀ hs₀ hid hn
    exact hold ⟨s₀, hs₀, hid, hn⟩

theorem Event.unmixed (hs : e.pre.step A e.label = some e.post) (hf : e.FreshSince e)
    (hI : e.pre.db.Unmixed) : e.post.db.Unmixed := by
  constructor
  · intro s hm s' hm' n hp hp'
    rcases Event.pending_cases hf hm hp with ⟨s₀, hs₀, hid, hn⟩ | hno
    · rcases Event.pending_cases hf hm' hp' with ⟨s₁, hs₁, hid', hn'⟩ | hno'
      · rw [← hid, ← hid']
        exact hI.one s₀ hs₀ s₁ hs₁ n hn hn'
      · exact absurd (.inl ⟨s₀, hs₀, hn⟩) hno'
    · -- both were drawn by this step, which draws for one session
      rcases Event.commits_or_same hs with hsame | ⟨tx, r, hc⟩
      · exact absurd (.inl ⟨s, hsame ▸ hm, hp⟩) hno
      · rcases hc.effect.pending hm hp with ⟨s₀, hs₀, -, hn⟩ | ⟨c, d, rfl⟩
        · exact absurd (.inl ⟨s₀, hs₀, hn⟩) hno
        · rcases hc.effect.pending hm' hp' with ⟨s₁, hs₁, -, hn⟩ | ⟨c', d', htx⟩
          · exact absurd (.inl ⟨s₁, hs₁, hn⟩) hno
          · simp only [Tx.decide.injEq, Work.startTotp.injEq] at htx
            exact htx.2.1
  · intro s hm n hp uid hn
    rcases Event.enrolled hs hn with hpre | ⟨step, now, hconf⟩
    · rcases Event.pending_cases hf hm hp with ⟨s₀, hs₀, -, hp₀⟩ | hno
      · exact hI.free s₀ hs₀ n hp₀ uid hpre
      · exact hno (Db.hasNonce_of_nonce? hpre)
    · -- the nonce left its session when it was enrolled
      obtain ⟨tx, r, hc, hconf⟩ := hconf
      obtain ⟨hs₀, s₁, hs₁, hn₁, hne⟩ := hc.effect.confirmed_pending hconf hm hp
      exact hne (hI.one s₁ hs₁ s hs₀ n hn₁ hp)

theorem World.Run.unmixed (hinit : w₀.Init) (H : World.Run A w₀ h w)
    (hf : ∀ e ∈ h, Event.FreshSince e e) : w.db.Unmixed := by
  apply H.stays (fun w => w.db.Unmixed)
  · constructor
    · intro s hs
      rw [hinit.sessions] at hs
      exact absurd hs Table.not_mem_empty
    · intro s hs
      rw [hinit.sessions] at hs
      exact absurd hs Table.not_mem_empty
  · rintro h₁ e h₂ rfl - hs hI
    exact Event.unmixed hs (hf e (by simp)) hI

/-! ## Steps go up -/

/-- A code of `step` was accepted for the nonce. -/
structure World.Spent (uid : Nat) (n : Bytes) (step : Int) (w : World) : Prop where
  pending : ∀ s ∈ w.db.sessions, s.pendingTotpNonce ≠ some n
  last : w.db.nonce? uid = some n → ∃ l, w.db.lastStep? uid = some l ∧ step ≤ l

/-- The first half: an accepted nonce waits nowhere. -/
theorem Event.AcceptsStep.pending (ha : e.AcceptsStep A uid n step now) (hf : e.FreshSince e)
    (hI : e.pre.db.Unmixed) :
    ∀ s ∈ e.post.db.sessions, s.pendingTotpNonce ≠ some n := by
  intro s hm hp
  rcases ha with ⟨tx, r, hc, hconf⟩ | ha
  · obtain ⟨hs₀, s₁, hs₁, hn₁, hne⟩ := hc.effect.confirmed_pending hconf hm hp
    exact hne (hI.one s₁ hs₁ s hs₀ n hn₁ hp)
  · rcases Event.pending_cases hf hm hp with ⟨s₀, hs₀, -, hp₀⟩ | hno
    · exact hI.free s₀ hs₀ n hp₀ uid ha.nonce?
    · exact hno (Db.hasNonce_of_nonce? ha.nonce?)

theorem Event.AcceptsStep.spent (ha : e.AcceptsStep A uid n step now) (hf : e.FreshSince e)
    (hI : e.pre.db.Unmixed) : e.post.Spent uid n step := by
  refine ⟨ha.pending hf hI, fun hn => ⟨step, ?_, le_rfl⟩⟩
  rcases ha with ⟨tx, r, hc, hconf⟩ | ⟨tx, r, hc, ha⟩
  · exact (hc.effect.confirmed_row hconf hn).2
  · cases hc.effect.factor uid with
    | same hno => exact absurd ha (hno n step now)
    | accepted ha' _ _ hl => rw [hl, (ha.unique ha').2]
    | confirmed hconf => cases hconf; cases ha
    | disabled _ _ hnone =>
      rw [hnone] at hn
      cases hn

/-- What has been accepted stays so: the nonce is not drawn again, and later codes are of later
steps. -/
theorem World.Spent.keep (hI : e.pre.Spent uid n step) (hs : e.pre.step A e.label = some e.post)
    (hf : e'.FreshSince e) (huse : e'.pre.db.HasNonce n) : e.post.Spent uid n step := by
  constructor
  · intro s hm hp
    rcases Event.pending_cases hf hm hp with ⟨s₀, hs₀, -, hp₀⟩ | hno
    · exact hI.pending s₀ hs₀ hp₀
    · exact hno huse
  · intro hn
    rcases Event.commits_or_same hs with hsame | ⟨tx, r, hc⟩
    · rw [hsame] at hn ⊢
      exact hI.last hn
    cases hc.effect.factor uid with
    | same _ hnonce hlast =>
      rw [hlast]
      exact hI.last (hnonce ▸ hn)
    | @accepted m step₁ now₁ ha hlt hnonce hlast =>
      obtain ⟨l, hl, hle⟩ := hI.last (hnonce ▸ hn)
      exact ⟨step₁, hlast, hle.trans (hlt l hl).le⟩
    | @confirmed m step₁ now₁ hconf hnonce =>
      rw [hnonce] at hn
      cases hn
      obtain ⟨s, hm, hp⟩ := Event.Confirms.pending ⟨tx, r, hc, hconf⟩
      exact absurd hp (hI.pending s hm)
    | disabled _ _ hnonce =>
      rw [hnonce] at hn
      cases hn

/-- A code accepted for a spent nonce is of a later step, and is not one of `confirm_totp`. -/
theorem World.Spent.lt (hI : e.pre.Spent uid n step) (ha : e.AcceptsStep A uid n step' now') :
    step < step' ∧ e.AcceptsTotp A uid n step' now' := by
  rcases ha with hconf | ha
  · obtain ⟨s, hm, hp⟩ := hconf.pending
    exact absurd hp (hI.pending s hm)
  · refine ⟨?_, ha⟩
    obtain ⟨l, hl, hle⟩ := hI.last ha.nonce?
    obtain ⟨tx, r, hc, ha⟩ := ha
    exact hle.trans_lt (hc.effect.totp_later ha hl)

theorem Event.AcceptsStep.near (ha : e.AcceptsStep A uid n step now) :
    stepAt now - 1 ≤ step ∧ step ≤ stepAt now + 1 := by
  rcases ha with ⟨tx, r, -, ha⟩ | ⟨tx, r, -, ha⟩
  · cases ha with
    | mk _ _ _ _ hm =>
      obtain ⟨hlo, hhi, -⟩ := matchingStep_spec hm
      exact ⟨hlo, hhi⟩
  · cases ha with
    | mk _ _ hm =>
      obtain ⟨hlo, hhi, -⟩ := matchingStep_spec hm
      exact ⟨hlo, hhi⟩

/-- Two codes accepted for one nonce, in order. -/
theorem World.Run.steps_increase {h₁ h₂ h₃ : List Event} (hinit : w₀.Init)
    (H : World.Run A w₀ (h₁ ++ e :: (h₂ ++ e' :: h₃)) w)
    (hf : FreshNonces (h₁ ++ e :: (h₂ ++ e' :: h₃))) (ha : e.AcceptsStep A uid n step now)
    (ha' : e'.AcceptsStep A uid n step' now') :
    step < step' ∧ e'.AcceptsTotp A uid n step' now' := by
  obtain ⟨H₁, hs, H₂⟩ := H.split
  obtain ⟨H₃, -, -⟩ := H₂.split
  have hrest := (List.pairwise_cons.mp (List.pairwise_append.mp hf.2).2.1).1
  have hI := World.Run.unmixed hinit H₁ fun e' he' => hf.1 e' (List.mem_append_left _ he')
  have hspent : e'.pre.Spent uid n step := by
    apply H₃.stays (World.Spent uid n step)
    · exact ha.spent (hf.1 e (by simp)) hI
    · rintro g₁ e₁ g₂ rfl - hs₁ hI₁
      exact hI₁.keep hs₁ (hrest e₁ (by simp)) ha.hasNonce
  exact hspent.lt ha'

/-- A nonce that a check accepts codes for was enrolled before, or at the start. -/
theorem World.Run.enrolled_before (H : World.Run A w₀ h w) (hn : w.db.nonce? uid = some n) :
    w₀.db.nonce? uid = some n ∨ ∃ e ∈ h, ∃ step now, e.Confirms A uid n step now := by
  by_cases h0 : w₀.db.nonce? uid = some n
  · exact .inl h0
  · obtain ⟨h₁, e, h₂, rfl, hpre, hpost, -⟩ := H.origin (fun w => w.db.nonce? uid = some n) h0 hn
    obtain ⟨-, hs, -⟩ := H.split
    rcases Event.enrolled hs hpost with h | hconf
    · exact absurd h hpre
    · exact .inr ⟨e, by simp, hconf⟩

/-! ## Recovery codes -/

/-- The step replaces the codes of `uid`, ends the enrollment or accepts `text`. -/
def Event.EndsCode (A : App) (e : Event) (uid : Nat) (text : Str) : Prop :=
  (∃ codes, e.Replaces A uid codes) ∨ e.Disables A uid ∨ e.AcceptsCode A uid text

/-- The last `replace` of the account issued the code `text`, and since then the enrollment was not
ended and the code not accepted. -/
def IssuedUnused (A : App) (h : List Event) (uid : Nat) (text : Str) : Prop :=
  ∃ h₁ e h₂ codes, h = h₁ ++ e :: h₂ ∧ e.Replaces A uid codes ∧ text ∈ codes ∧
    ∀ e' ∈ h₂, ¬e'.EndsCode A uid text

theorem IssuedUnused.snoc (hi : IssuedUnused A h uid text) (hno : ¬e.EndsCode A uid text) :
    IssuedUnused A (h ++ [e]) uid text := by
  obtain ⟨h₁, e₁, h₂, codes, rfl, hiss, hmem, hall⟩ := hi
  refine ⟨h₁, e₁, h₂ ++ [e], codes, by simp, hiss, hmem, fun e' he' => ?_⟩
  rcases List.mem_append.mp he' with he' | he'
  · exact hall e' he'
  · rw [List.mem_singleton.mp he']
    exact hno

/-- A code stored after a step is issued by it, or was stored before and is not ended by it. -/
theorem Event.code_cases (hsha : InjectiveOnCodes A) (hs : e.pre.step A e.label = some e.post)
    (htext : Recovery.IsRecoveryCode text)
    (hrow : Recovery.row A uid text ∈ e.post.db.recoveryCodes) :
    (∃ codes, e.Replaces A uid codes ∧ text ∈ codes) ∨
      Recovery.row A uid text ∈ e.pre.db.recoveryCodes ∧ ¬e.EndsCode A uid text := by
  rcases Event.commits_cases hs with ⟨tx, r, hc⟩ | ⟨hsame, hno⟩
  · by_cases hrep : ∃ codes, tx.Replaces uid codes r
    · left
      cases hc.effect.codes uid with
      | same hl | accepted hl => exact absurd hrep.choose_spec (hl.1 _)
      | @replaced codes hrep' _ hcodes heq =>
        rw [← Db.row_mem_codes, heq, List.mem_map] at hrow
        obtain ⟨text', hmem, hhash⟩ := hrow
        have : text' = text := by
          apply hsha _ _ (hcodes _ hmem) htext
          exact congrArg RecoveryRow.codeHash hhash
        exact ⟨codes, ⟨tx, r, hc, hrep'⟩, this ▸ hmem⟩
      | disabled _ heq =>
        rw [← Db.row_mem_codes, heq] at hrow
        cases hrow
    · right
      have hrep' : ∀ codes, ¬tx.Replaces uid codes r := fun codes hr => hrep ⟨codes, hr⟩
      obtain ⟨hrow, hdis, hacc⟩ := hc.effect.code_kept hrep' hrow
      refine ⟨hrow, ?_⟩
      rintro (⟨codes, tx', r', hc', hr⟩ | ⟨tx', r', hc', hd⟩ | ⟨tx', r', hc', ha⟩)
      all_goals obtain ⟨rfl, rfl⟩ := hc.unique hc'
      · exact hrep' codes hr
      · exact hdis hd
      · exact hacc ha
  · refine .inr ⟨hsame ▸ hrow, ?_⟩
    rintro (⟨codes, tx', r', hc', hr⟩ | ⟨tx', r', hc', hd⟩ | ⟨tx', r', hc', ha⟩)
    all_goals exact hno tx' r' hc'

/-- A stored code is the account's by its last `replace` and unused since. -/
theorem World.Run.code_issued (hsha : InjectiveOnCodes A) (hinit : w₀.Init) (H : World.Run A w₀ h w)
    (htext : Recovery.IsRecoveryCode text) (hrow : Recovery.row A uid text ∈ w.db.recoveryCodes) :
    IssuedUnused A h uid text := by
  revert hrow
  apply H.rec_snoc fun h w => Recovery.row A uid text ∈ w.db.recoveryCodes →
    IssuedUnused A h uid text
  · intro hrow
    rw [hinit.recoveryCodes] at hrow
    exact absurd hrow Table.not_mem_empty
  · intro h t l u _ ih hs hrow
    rcases Event.code_cases (e := ⟨t, l, u⟩) hsha hs htext hrow with ⟨codes, hrep, hmem⟩
      | ⟨hrow, hno⟩
    · exact ⟨h, ⟨t, l, u⟩, [], codes, rfl, hrep, hmem, by simp⟩
    · exact (ih hrow).snoc hno

theorem Event.AcceptsCode.stored (ha : e.AcceptsCode A uid text) :
    Recovery.IsRecoveryCode text ∧ Recovery.row A uid text ∈ e.pre.db.recoveryCodes := by
  obtain ⟨tx, r, hc, ha⟩ := ha
  refine ⟨?_, hc.effect.code_stored ha⟩
  cases ha with
  | mk _ _ _ hn => exact Recovery.normalize_isRecoveryCode hn

/-- A code issued once is ended by nothing before it is accepted. -/
theorem IssuedUnused.since {h₁ h₂ : List Event} {codes : List Str}
    (hi : IssuedUnused A (h₁ ++ e :: h₂) uid text) (hiss : e.Replaces A uid codes)
    (honce : ∀ e' ∈ h₂, ∀ codes', e'.Replaces A uid codes' → text ∉ codes') :
    ∀ e' ∈ h₂, ¬e'.EndsCode A uid text := by
  obtain ⟨g₁, e₁, g₂, codes₁, heq, hiss₁, hmem₁, hall⟩ := hi
  rcases List.append_eq_append_iff.mp heq with ⟨k, hg, hk⟩ | ⟨k, hg, hk⟩
  · cases k with
    | nil =>
      rw [List.nil_append] at hk
      cases hk
      exact hall
    | cons a k =>
      -- the code would have been issued again
      rw [List.cons_append] at hk
      cases hk
      exact absurd hmem₁ (honce e₁ (by simp) codes₁ hiss₁)
  · cases k with
    | nil =>
      rw [List.nil_append] at hk
      cases hk
      exact hall
    | cons a k =>
      -- the codes would have been replaced since
      rw [List.cons_append] at hk
      cases hk
      exact absurd (.inl ⟨codes, hiss⟩) (hall e (by simp))

/-- No second factor is accepted twice: the steps accepted for an enrollment nonce go up, from the
one of `confirm_totp` on, and each is near the time of its check; a recovery code is accepted only
after a `replace` issued it, and in between it was not accepted, the codes were not replaced and
the enrollment not ended. -/
theorem no_factor_accepted_twice (A : App) (hsha : InjectiveOnCodes A) (w₀ w : World)
    (h : List Event) (hinit : w₀.Init) (H : World.Run A w₀ h w) (hfresh : FreshNonces h) :
    (∀ h₁ e h₂ e' h₃ uid n step step' now now', h = h₁ ++ e :: (h₂ ++ e' :: h₃) →
      e.AcceptsStep A uid n step now → e'.AcceptsStep A uid n step' now' →
      step < step' ∧ e'.AcceptsTotp A uid n step' now') ∧
    (∀ h₁ e h₂ uid n step now, h = h₁ ++ e :: h₂ → e.AcceptsTotp A uid n step now →
      w₀.db.nonce? uid = some n ∨ ∃ e₁ ∈ h₁, ∃ step₁ now₁, e₁.Confirms A uid n step₁ now₁) ∧
    (∀ e ∈ h, ∀ uid n step now, e.AcceptsStep A uid n step now →
      stepAt now - 1 ≤ step ∧ step ≤ stepAt now + 1) ∧
    (∀ h₁ e h₂ uid text, h = h₁ ++ e :: h₂ → e.AcceptsCode A uid text →
      IssuedUnused A h₁ uid text) ∧
    ∀ h₁ e₁ h₂ e h₃ uid codes text, h = h₁ ++ e₁ :: (h₂ ++ e :: h₃) → e₁.Replaces A uid codes →
      text ∈ codes → (∀ e' ∈ h₂, ∀ codes', e'.Replaces A uid codes' → text ∉ codes') →
      e.AcceptsCode A uid text → ∀ e' ∈ h₂, ¬e'.EndsCode A uid text := by
  have hcodes : ∀ h₁ e h₂ uid text, h = h₁ ++ e :: h₂ → e.AcceptsCode A uid text →
      IssuedUnused A h₁ uid text := by
    rintro h₁ e h₂ uid text rfl ha
    obtain ⟨htext, hrow⟩ := ha.stored
    exact World.Run.code_issued hsha hinit H.split.1 htext hrow
  refine ⟨?_, ?_, ?_, hcodes, ?_⟩
  · rintro h₁ e h₂ e' h₃ uid n step step' now now' rfl ha ha'
    exact World.Run.steps_increase hinit H hfresh ha ha'
  · rintro h₁ e h₂ uid n step now rfl ha
    exact World.Run.enrolled_before H.split.1 ha.nonce?
  · intro e _ uid n step now ha
    exact ha.near
  · rintro h₁ e₁ h₂ e h₃ uid codes text rfl hiss - honce ha
    have hi := hcodes (h₁ ++ e₁ :: h₂) e h₃ uid text (by simp) ha
    exact hi.since hiss honce

namespace Enrollment

def account : UserRow := .sample 1 "m@kohaku.test".toList "the password".toList .maintainer none

def start : World := .start ⟨[account], by decide⟩

def tokenHash : Bytes := asBytes (tokenText App.sample.base64 (Draws.sample 1).token)

def csrf : Bytes := (Draws.sample 1).csrf.toList

def user : SessionUser := ⟨1, 1, .maintainer, account.email, false, csrf⟩

def nonce : Bytes := (Draws.sample 2).nonce.toList

def codes : List Str := (Draws.sample 3).codes.map fun bytes => base32 bytes.toList

/-- The account signs in, enrolls and signs in with a code. -/
def labels : List Label :=
  [.login 1 account.email "the password".toList [] none 0, .decide 1 (.sample 1),
    .current 2 tokenHash 10, .post 2 csrf (.startTotp "the password".toList []) none 10 (.sample 2),
    .decide 2 (.sample 2),
    .current 3 tokenHash 20, .post 3 csrf (.confirmTotp "000000".toList) none 20 (.sample 3),
    .login 4 account.email "the password".toList "000000".toList none 60, .decide 4 (.sample 4)]

def history : List Event := Lts.history (World.step App.sample) start labels

theorem init : start.Init := World.init_start (by decide)

theorem enabled : (Lts.trace (World.step App.sample) start labels).isSome = true := by
  decide

theorem run : World.Run App.sample start history (Lts.last start history) := .of_history enabled

theorem length : history.length = 9 := Lts.length_history enabled

theorem fresh : FreshNonces history := by decide

def confirm : Event := history.get ⟨6, by rw [length]; decide⟩

def signIn : Event := history.get ⟨8, by rw [length]; decide⟩

theorem cut : history =
    history.take 6 ++ confirm :: ((history.drop 7).take 1 ++ signIn :: history.drop 9) := by
  rw [signIn, List.get_eq_getElem, List.getElem_cons_drop,
    show history.drop (8 : Nat) =
      (history.drop 7).drop 1 by rw [List.drop_drop], List.take_append_drop,
    confirm, List.get_eq_getElem, List.getElem_cons_drop, List.take_append_drop]

/-- The check of the second login. -/
def check : Checking where
  attempt := ⟨.email account.email, "the password".toList, "000000".toList, none⟩
  now := 60
  accountId := 1
  verified := ⟨some "the password".toList, false, "000000".toList⟩

theorem confirms : confirm.Confirms App.sample 1 nonce 1 20 := by
  refine ⟨.confirmTotp user "000000".toList 20 (.sample 3), .confirmed (.enrolled codes), ?_, ?_⟩
  · exact Event.commits_of_eval (run.step_of_mem (List.get_mem ..)) (by decide)
      (by decide)
  · have hs : (confirm.pre.db.sessions.get? 1).map SessionRow.pendingTotpNonce =
        some (some nonce) := by
      decide
    obtain ⟨s, hs, hn⟩ := Option.map_eq_some_iff.mp hs
    obtain ⟨hm, hid⟩ := Table.get?_eq_some.mp hs
    exact .mk rfl hm hid hn (by decide)

theorem accepts : signIn.AcceptsTotp App.sample 1 nonce 3 60 := by
  refine ⟨.decide check (.login none) (.sample 4), .outcome (.success
    (.signedIn (tokenText App.sample.base64 (Draws.sample 4).token)
      (some (tokenText App.sample.base64 (Draws.sample 4).device)))), ?_, ?_⟩
  · exact Event.commits_of_eval (run.step_of_mem (List.get_mem ..)) (by decide)
      (by decide)
  · exact .mk (c := check) rfl (by decide) (by decide)

end Enrollment

/-- The code of the second login is of a later step than the one that was confirmed. -/
theorem enrolled_login_step_later :
    FreshNonces Enrollment.history ∧
      Enrollment.confirm.Confirms App.sample 1 Enrollment.nonce 1 20 ∧
      Enrollment.signIn.AcceptsTotp App.sample 1 Enrollment.nonce 3 60 ∧ (1 : Int) < 3 := by
  have hsha : InjectiveOnCodes App.sample := fun c c' _ _ h => asBytes_injective h
  refine ⟨Enrollment.fresh, Enrollment.confirms, Enrollment.accepts, ?_⟩
  exact
    ((no_factor_accepted_twice App.sample hsha Enrollment.start _ _ Enrollment.init Enrollment.run
    Enrollment.fresh).1 _ _ _ _ _ _ _ _ _ _ _ Enrollment.cut (.inl Enrollment.confirms)
    (.inr Enrollment.accepts)).1

end Kohaku
