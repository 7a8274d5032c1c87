import Kohaku.TwoFactor.NoReplay

/-!
# Sessions of an enrolled account

While an account is enrolled with a nonce, its sessions are those of logins that used a second
factor of this enrollment, and the one on which the nonce was confirmed: `confirm_totp` deletes the
others and every device cookie. A login whose password was verified before the enrollment is
decided after it with the second factor, because the deciding transaction reads the account again.
-/

namespace Kohaku

open Sql Credentials

/-- The step starts or ends an enrollment of the account. -/
def Event.SetsNonce (A : App) (e : Event) (uid : Nat) : Prop :=
  (∃ n step now, e.Confirms A uid n step now) ∨ e.Disables A uid

/-- In the history the enrollment of `uid` with `n` began at the step given, or before the history
started; the last list is what has happened since. -/
inductive EnrolledBy (A : App) (w₀ : World) (uid : Nat) (n : Bytes) :
    List Event → Option Event → List Event → Prop
  | start : w₀.db.nonce? uid = some n → (∀ e ∈ h, ¬e.SetsNonce A uid) →
    EnrolledBy A w₀ uid n h none h
  | confirm : e.Confirms A uid n step now → (∀ e' ∈ h₂, ¬e'.SetsNonce A uid) →
    EnrolledBy A w₀ uid n (h₁ ++ e :: h₂) (some e) h₂

/-- One of the steps issued the recovery code; codes are known by their hashes. -/
def IssuedIn (A : App) (h : List Event) (uid : Nat) (text : Str) : Prop :=
  ∃ e ∈ h, ∃ codes, e.Replaces A uid codes ∧
    ∃ code ∈ codes, A.sha256 (asBytes code) = A.sha256 (asBytes text)

/-- The step is the login that created the session `s` of `uid`, at the time `now`. -/
def Event.Creates (A : App) (e : Event) (uid : Nat) (now : Time) (s : SessionRow) : Prop :=
  e.InsertsSession s ∧ ∃ c u db₁, e.LoginPassed A c u db₁ ∧ c.accountId = uid ∧ c.now = now

/-- How a session of an account enrolled with `n` came about, where `h` has happened since the
enrollment: by a login with a TOTP code of `n`, by a login with a recovery code issued during the
enrollment, or by a login before, if it is the session on which `n` was confirmed. -/
inductive TwoFactorSession (A : App) (uid : Nat) (n : Bytes) (c : Option Event) (h : List Event)
    (s : SessionRow) : Prop
  | totp : h = h₁ ++ e :: h₂ → e.Creates A uid now s → e.AcceptsTotp A uid n step now →
    TwoFactorSession A uid n c h s
  | code : h = h₁ ++ e :: h₂ → e.Creates A uid now s → e.AcceptsCode A uid text →
    IssuedIn A (c.toList ++ h₁) uid text → TwoFactorSession A uid n c h s
  | confirmed : c = some e → s₀ ∈ e.pre.db.sessions → s₀.pendingTotpNonce = some n →
    s₀.fixed = s.fixed → TwoFactorSession A uid n c h s

/-- What holds of an account while it is enrolled with `n`. -/
structure SinceEnrolled (A : App) (uid : Nat) (n : Bytes) (c : Option Event) (h : List Event)
    (w : World) : Prop where
  sessions : ∀ s ∈ w.db.sessions, s.userId = uid → TwoFactorSession A uid n c h s
  devices : ∀ k ∈ w.db.knownDevices, k.userId = uid → ∃ h₁ e h₂, h = h₁ ++ e :: h₂ ∧
    e.InsertsDevice k ∧ ∃ c u db₁, e.LoginPassed A c u db₁ ∧ c.accountId = uid
  codes : ∀ text, Recovery.row A uid text ∈ w.db.recoveryCodes → IssuedIn A (c.toList ++ h) uid text

variable {A : App} {w₀ w : World} {h h' : List Event} {e : Event} {uid : Nat} {n : Bytes}
  {c : Option Event} {s s' : SessionRow} {text : Str}

theorem IssuedIn.mono (hi : IssuedIn A h uid text) (hsub : h ⊆ h') : IssuedIn A h' uid text := by
  obtain ⟨e, he, hrest⟩ := hi
  exact ⟨e, hsub he, hrest⟩

theorem Event.InsertsSession.of_fixed (h : e.InsertsSession s) (hfix : s.fixed = s'.fixed) :
    e.InsertsSession s' := by
  obtain ⟨hnew, r, hr, hrfix⟩ := h
  exact ⟨fun r hr => SessionRow.id_of_fixed hfix ▸ hnew r hr, r, hr, hrfix.trans hfix⟩

/-- The origin of a session is known by its fixed columns and is not changed by later steps. -/
theorem TwoFactorSession.snoc (ht : TwoFactorSession A uid n c h s) (hfix : s.fixed = s'.fixed) :
    TwoFactorSession A uid n c (h ++ [e]) s' := by
  cases ht with
  | totp hh hc ha => exact .totp (by rw [hh]; simp; rfl) ⟨hc.1.of_fixed hfix, hc.2⟩ ha
  | code hh hc ha hi => exact .code (by rw [hh]; simp; rfl) ⟨hc.1.of_fixed hfix, hc.2⟩ ha hi
  | confirmed hc hs₀ hn hfix₀ => exact .confirmed hc hs₀ hn (hfix₀.trans hfix)

theorem EnrolledBy.snoc (he : EnrolledBy A w₀ uid n h c h') (hno : ¬e.SetsNonce A uid) :
    EnrolledBy A w₀ uid n (h ++ [e]) c (h' ++ [e]) := by
  have hall : (∀ e ∈ h', ¬e.SetsNonce A uid) → ∀ e' ∈ h' ++ [e], ¬e'.SetsNonce A uid := by
    intro hall e' he'
    rcases List.mem_append.mp he' with he' | he'
    · exact hall e' he'
    · rw [List.mem_singleton.mp he']
      exact hno
  cases he with
  | start h0 hno' => exact .start h0 (hall hno')
  | confirm hc hno' =>
    rw [List.append_assoc, List.cons_append]
    exact .confirm hc (hall hno')

/-! ## The step that enrolls -/

/-- Right after `confirm_totp` the account has the session on which the nonce was pending, no
device cookie and the codes just issued. -/
theorem Event.Confirms.since {step : Int} {now : Time} (hconf : e.Confirms A uid n step now) :
    SinceEnrolled A uid n (some e) [] e.post := by
  obtain ⟨tx, r, hc, hconf⟩ := hconf
  have hcodes := hc.effect.codes uid
  refine ⟨fun s hs hu => ?_, fun k hk hu => ?_, fun text htext => ?_⟩
  · have heff := hc.effect
    generalize e.post.db = db' at heff hs
    cases hconf with
    | @mk s₀ text user d codes hid hs₀ hsid hn =>
      cases heff with
      | notEnrolled hr => exact absurd rfl (hr _)
      | enrolled =>
        simp only [Table.mem_update] at hs
        obtain ⟨q, hq, rfl⟩ := hs
        obtain ⟨hq, hdel⟩ := Table.mem_delete.mp hq
        have hqu : q.userId = uid := by split at hu <;> exact hu
        have hqid : q.id = user.sessionId := by simpa [hqu, hid] using hdel
        refine .confirmed rfl hs₀ hn ?_
        rw [Table.eq_of_key_eq hs₀ hq (hsid.trans hqid.symm)]
        split <;> rfl
  · have heff := hc.effect
    generalize e.post.db = db' at heff hk
    cases hconf with
    | mk hid =>
      cases heff with
      | notEnrolled hr => exact absurd rfl (hr _)
      | enrolled =>
        have := (Table.mem_delete.mp hk).2
        simp [hid, hu] at this
  · rw [← Db.row_mem_codes] at htext
    cases hcodes with
    | same hl | accepted hl =>
      cases hconf with
      | mk hid => exact absurd (.confirm hid) (hl.1 _)
    | replaced hrep _ _ heq =>
      rw [heq, List.mem_map] at htext
      obtain ⟨code, hcode, hrow⟩ := htext
      exact ⟨e, by simp, _, ⟨tx, r, hc, hrep⟩, code, hcode, congrArg RecoveryRow.codeHash hrow⟩
    | disabled hd => cases hconf; cases hd

/-! ## The other steps -/

/-- The second factor of a login of an enrolled account. -/
theorem Event.Commits.factor {ck : Checking} {work : Work} {d : Draws} {value : Value} {u : UserRow}
    {db₁ : Db} (hc : e.Commits A (.decide ck work d) (.outcome (.success value)))
    (hp : Passed A e.pre.db ck u db₁) (hn : e.pre.db.nonce? ck.accountId = some n) :
    (∃ step, e.AcceptsTotp A ck.accountId n step ck.now) ∨
      ∃ text, e.AcceptsCode A ck.accountId text := by
  have hnonce : u.totpNonce = some n := by
    rw [Db.nonce?, hp.user, Option.bind_some] at hn
    exact hn
  have hid := Db.id_of_user? hp.user
  cases hp.factor with
  | notEnrolled h0 =>
    rw [h0] at hnonce
    cases hnonce
  | enrolled hm ha =>
    rw [hnonce] at hm
    cases hm
    cases ha with
    | @totp _ step _ hstep =>
      rw [hid] at hstep
      exact .inl ⟨step, _, _, hc, .mk rfl hn hstep⟩
    | @recovery text hcode hnorm =>
      exact .inr ⟨text, _, _, hc, .mk rfl (by rw [hn]; rfl) hcode hnorm⟩

/-- A step that starts or ends no enrollment keeps what holds since the enrollment. -/
theorem SinceEnrolled.keep (hI : SinceEnrolled A uid n c h e.pre)
    (hs : e.pre.step A e.label = some e.post) (hn : e.pre.db.nonce? uid = some n)
    (hno : ¬e.SetsNonce A uid) : SinceEnrolled A uid n c (h ++ [e]) e.post := by
  rcases Event.commits_or_same hs with hsame | ⟨tx, r, hc⟩
  · refine ⟨fun s hm hu => ?_, fun k hk hu => ?_, fun text htext => ?_⟩
    · exact (hI.sessions s (hsame ▸ hm) hu).snoc rfl
    · obtain ⟨h₁, e₁, h₂, rfl, hins⟩ := hI.devices k (hsame ▸ hk) hu
      exact ⟨h₁, e₁, h₂ ++ [e], by simp, hins⟩
    · apply (hI.codes text (hsame ▸ htext)).mono
      rw [← List.append_assoc]
      exact List.subset_append_left _ _
  refine ⟨fun s hm hu => ?_, fun k hk hu => ?_, fun text htext => ?_⟩
  · rcases hc.effect.session hm with ⟨s₀, hs₀, hfix⟩
      | ⟨ck, device, d, value, u, db₁, rfl, rfl, hp, rfl⟩
    · exact (hI.sessions s₀ hs₀ ((SessionRow.userId_of_fixed hfix).trans hu)).snoc hfix
    · -- the session of a login of this step
      have hcreate : e.Creates A uid ck.now
          (newSession A ck.accountId ck.now d.token d.csrf e.pre.db.sessions.nextRowid) :=
        ⟨⟨fun q hq => (Table.lt_nextRowid hq).ne, _, hm, rfl⟩, ck, u, db₁,
          ⟨device, d, value, hc, hp⟩, hu, rfl⟩
      obtain rfl : ck.accountId = uid := hu
      rcases hc.factor hp hn with ⟨step, ha⟩ | ⟨text, ha⟩
      · exact .totp rfl hcreate ha
      · exact .code rfl hcreate ha (hI.codes text ha.stored.2)
  · rcases hc.effect.device hk with hk | ⟨ck, device, d, value, u, db₁, rfl, rfl, hp, rfl⟩
    · obtain ⟨h₁, e₁, h₂, rfl, hins⟩ := hI.devices k hk hu
      exact ⟨h₁, e₁, h₂ ++ [e], by simp, hins⟩
    · exact ⟨h, e, [], rfl, ⟨fun q hq => (Table.lt_nextRowid hq).ne, hk⟩, ck, u, db₁,
        ⟨device, d, value, hc, hp⟩, hu⟩
  · rw [← Db.row_mem_codes] at htext
    have hold : Recovery.row A uid text ∈ e.pre.db.codes uid →
        IssuedIn A (c.toList ++ (h ++ [e])) uid text := by
      intro hm
      apply (hI.codes text (Db.row_mem_codes.mp hm)).mono
      rw [← List.append_assoc]
      exact List.subset_append_left _ _
    cases hc.effect.codes uid with
    | same _ _ heq => exact hold (heq ▸ htext)
    | accepted _ _ _ heq =>
      rw [heq, List.mem_filter] at htext
      exact hold htext.1
    | replaced hrep _ _ heq =>
      rw [heq, List.mem_map] at htext
      obtain ⟨code, hcode, hrow⟩ := htext
      exact ⟨e, by simp, _, ⟨tx, r, hc, hrep⟩, code, hcode, congrArg RecoveryRow.codeHash hrow⟩
    | disabled hd => exact absurd (.inr ⟨tx, r, hc, hd⟩) hno

/-- An account whose enrollment no step has changed is enrolled as before. -/
theorem Event.nonce?_of_not_sets (hs : e.pre.step A e.label = some e.post)
    (hno : ¬e.SetsNonce A uid) : e.post.db.nonce? uid = e.pre.db.nonce? uid := by
  rcases Event.commits_or_same hs with hsame | ⟨tx, r, hc⟩
  · rw [hsame]
  · cases hc.effect.factor uid with
    | same _ hn | accepted _ _ hn => exact hn
    | confirmed hconf => exact absurd (.inl ⟨_, _, _, tx, r, hc, hconf⟩) hno
    | disabled hd => exact absurd (.inr ⟨tx, r, hc, hd⟩) hno

/-- In every state reached, the sessions of an account that is enrolled with `n` were created with a
second factor of this enrollment or are the one on which `n` was confirmed, and its device cookies
were created by logins since. -/
theorem enrolled_sessions_two_factor (A : App) (w₀ w : World) (h : List Event) (hinit : w₀.Init)
    (H : World.Run A w₀ h w) (uid : Nat) (n : Bytes) (hn : w.db.nonce? uid = some n) :
    ∃ c h', EnrolledBy A w₀ uid n h c h' ∧ SinceEnrolled A uid n c h' w := by
  revert n
  apply H.rec_snoc fun h w => ∀ n, w.db.nonce? uid = some n →
    ∃ c h', EnrolledBy A w₀ uid n h c h' ∧ SinceEnrolled A uid n c h' w
  · intro n hn
    refine ⟨none, [], .start hn (by simp), ?_, ?_, ?_⟩
    · rw [hinit.sessions]
      exact fun s hs => absurd hs Table.not_mem_empty
    · rw [hinit.knownDevices]
      exact fun k hk => absurd hk Table.not_mem_empty
    · rw [hinit.recoveryCodes]
      exact fun text htext => absurd htext Table.not_mem_empty
  · intro h t l u _ ih hs n hn
    by_cases hset : Event.SetsNonce A ⟨t, l, u⟩ uid
    · rcases hset with ⟨m, step, now, hconf⟩ | ⟨tx, r, hc, hd⟩
      · obtain ⟨tx, r, hc, hconf'⟩ := hconf
        obtain rfl := (hc.effect.confirmed_row hconf' hn).1
        have hconf : Event.Confirms A ⟨t, l, u⟩ uid n step now := ⟨tx, r, hc, hconf'⟩
        exact ⟨some ⟨t, l, u⟩, [], .confirm hconf (by simp), hconf.since⟩
      · rw [hc.effect.disabled_row hd] at hn
        cases hn
    · have hpre : t.db.nonce? uid = some n :=
        (Event.nonce?_of_not_sets (e := ⟨t, l, u⟩) hs hset).symm.trans hn
      obtain ⟨c, h', hby, hI⟩ := ih n hpre
      exact ⟨c, h' ++ [⟨t, l, u⟩], hby.snoc hset, hI.keep (e := ⟨t, l, u⟩) hs hpre hset⟩

/-- The account that enrolled and signed in again has two sessions. -/
theorem enrolled_account_sessions :
    (Lts.last Enrollment.start Enrollment.history).db.nonce? 1 = some Enrollment.nonce ∧
      (Lts.last Enrollment.start Enrollment.history).db.sessions.rows.map SessionRow.userId =
      [1, 1] ∧
      ∃ c h', EnrolledBy App.sample Enrollment.start 1 Enrollment.nonce Enrollment.history c h' ∧
        SinceEnrolled App.sample 1 Enrollment.nonce c h'
          (Lts.last Enrollment.start Enrollment.history) := by
  have hn : (Lts.last Enrollment.start Enrollment.history).db.nonce? 1 = some Enrollment.nonce := by
    decide
  exact ⟨hn, by decide, enrolled_sessions_two_factor App.sample Enrollment.start _ _
    Enrollment.init Enrollment.run 1 Enrollment.nonce hn⟩

end Kohaku
