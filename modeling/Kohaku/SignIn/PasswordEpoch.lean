import Kohaku.Server.Tables

/-!
# Password epochs

The password is compared outside any transaction, so a login may be decided long after the hash
it was compared with was replaced. The invariant is that every session and device cookie of an
account was made by a login whose password matches the hash the account has now. Two facts carry
it: `decide` re-reads the hash, and every transaction that sets a hash deletes the account's
sessions and device cookies (`Effect.ended`), so a row that has survived since its login has seen
no other hash.
-/

namespace Kohaku

open Sql Credentials World

variable {A : App} {w₀ w : World} {h : List Event}

/-- After the history `h`, the step `e` is the deciding transaction of a login of `uid` that
submitted `password`. -/
def LoggedIn (A : App) (h : List Event) (e : Event) (uid : Nat) (password : Str) : Prop :=
  ∃ rid email text device now d value v,
    (∃ e₀ ∈ h, e₀.label = .login rid email password text device now) ∧ e.label = .decide rid d ∧
    e.Commits A
      (.decide ⟨⟨.email (normalizeEmail email), password, text, device⟩, now, uid, v⟩
        (.login device) d)
      (.outcome (.success value))

/-- Hashes that are set are new: none was the account's hash before. -/
def FreshHashes (h : List Event) : Prop :=
  h.Pairwise fun e' e => ∀ u ∈ e.post.db.users.rows, u.passwordHash ≠ e.pre.db.hash? u.id →
    e'.pre.db.hash? u.id ≠ u.passwordHash

/-! ## The login of a row -/

/-- A check in progress with the work of a login was submitted by a login, and its verified hash
matches the password submitted. -/
theorem login_submitted (hinit : w₀.Init) (H : World.Run A w₀ h w) {rid : Nat} {s : Option Signed}
    {c : Checking} {device : Option Bytes}
    (hq : ⟨rid, .checking s c (.login device)⟩ ∈ w.requests) :
    (∃ e₀ ∈ h, ∃ email password text, e₀.label = .login rid email password text device c.now ∧
        c.attempt = ⟨.email (normalizeEmail email), password, text, device⟩) ∧
      ∀ phc, c.verified.hash = some phc → A.verifyPassword c.attempt.password phc = true := by
  obtain ⟨h₁, e, h₂, rfl, he, -⟩ := H.entered (by rw [hinit.requests]; simp) hq
  generalize hl : e.label = l at he
  cases he with
  | @login _ email password text _ now uid v hlt hread =>
    refine ⟨⟨e, by simp, email, password, text, hl, rfl⟩, ?_⟩
    intro phc hphc
    obtain ⟨u, -, -, -, -, hver⟩ := checkRead_spec hread
    exact (hver phc hphc).2.2.2
  | reauth _ _ hw => cases hw

/-- A login that passed was submitted before, and its password matches the hash the account had
then and has right after. -/
theorem loggedIn_of_passed (hinit : w₀.Init) {e : Event} (H : World.Run A w₀ h e.pre)
    {c : Checking} {device : Option Bytes} {d : Draws} {value : Value} {u : UserRow} {db₁ : Db}
    (hc : e.Commits A (.decide c (.login device) d) (.outcome (.success value)))
    (hp : Passed A e.pre.db c u db₁) :
    ∃ password phc, LoggedIn A h e c.accountId password ∧
      e.pre.db.hash? c.accountId = some phc ∧ A.verifyPassword password phc = true := by
  have hfires := hc.fires
  generalize hl : e.label = l at hfires
  cases hfires with
  | @decide rid s _ _ _ hq =>
    obtain ⟨⟨e₀, he₀, email, password, text, hl₀, hatt⟩, hver⟩ := login_submitted hinit H hq
    have hok := hp.password
    simp only [passwordOk, Bool.and_eq_true, decide_eq_true_eq] at hok
    obtain ⟨phc, hphc⟩ := Option.isSome_iff_exists.mp hok.1.1
    refine ⟨password, phc, ⟨rid, email, text, device, c.now, d, value, c.verified,
      ⟨e₀, he₀, hl₀⟩, hl, ?_⟩, ?_, ?_⟩
    · rw [← hatt]
      exact hc
    · rw [Db.hash?, hp.user, Option.bind_some, ← hok.1.2, hphc]
    · have := hver phc hphc
      rwa [hatt] at this

/-- As long as an account keeps a session or a device cookie, its hash stays. -/
theorem Event.hash?_of_row {e : Event} (hs : e.pre.step A e.label = some e.post) {i : Nat}
    (hrow : (∃ s ∈ e.post.db.sessions, s.userId = i) ∨ ∃ k ∈ e.post.db.knownDevices, k.userId = i) :
    e.post.db.hash? i = e.pre.db.hash? i := by
  rcases Event.commits_or_same hs with hsame | ⟨tx, r, hc⟩
  · rw [hsame]
  · rcases hc.effect.hash? i with heq | ⟨phc, hset, -⟩
    · exact heq
    · -- setting the password would have deleted the row
      obtain ⟨hsess, hdev⟩ := hc.effect.ended hset
      rcases hrow with ⟨s, hs, hi⟩ | ⟨k, hk, hi⟩
      · exact absurd hi (hsess s hs)
      · exact absurd hi (hdev k hk)

/-- The hash of an account is the same at both ends of a run through which it keeps a row. -/
theorem World.Run.hash?_of_rows {w₁ w₂ : World} {h : List Event} (H : World.Run A w₁ h w₂) {i : Nat}
    (hkeep : ∀ e ∈ h, (∃ s ∈ e.post.db.sessions, s.userId = i) ∨
      ∃ k ∈ e.post.db.knownDevices, k.userId = i) :
    w₂.db.hash? i = w₁.db.hash? i :=
  H.eq_of_forall (fun w => w.db.hash? i) fun e he hs => Event.hash?_of_row hs (hkeep e he)

/-- A login whose account has kept a row ever since: the password submitted matches the hash the
account has at the end. -/
theorem World.Run.loggedIn {h₁ h₂ : List Event} {e : Event} (hinit : w₀.Init)
    (H : World.Run A w₀ (h₁ ++ e :: h₂) w) {c : Checking} {u : UserRow} {db₁ : Db}
    (hlogin : e.LoginPassed A c u db₁)
    (hkeep : ∀ e' ∈ e :: h₂, (∃ s ∈ e'.post.db.sessions, s.userId = c.accountId) ∨
      ∃ k ∈ e'.post.db.knownDevices, k.userId = c.accountId) :
    ∃ password phc, LoggedIn A h₁ e c.accountId password ∧ w.db.hash? c.accountId = some phc ∧
      A.verifyPassword password phc = true := by
  obtain ⟨H₁, hstep, H₂⟩ := H.split
  obtain ⟨device, d, value, hc, hp⟩ := hlogin
  obtain ⟨password, phc, hlog, hhash, hver⟩ := loggedIn_of_passed hinit H₁ hc hp
  refine ⟨password, phc, hlog, ?_, hver⟩
  rw [World.Run.hash?_of_rows (.cons hstep H₂) hkeep, hhash]

/-! ## A replaced hash -/

/-- With fresh hashes, a hash that was replaced does not come back. -/
theorem FreshHashes.not_back {h₁ h₂ : List Event} {e₀ e : Event} {i : Nat} {phc : Str}
    (hf : FreshHashes (h₁ ++ e₀ :: h₂)) (H : World.Run A w₀ (h₁ ++ e₀ :: h₂) w)
    (h0 : e₀.pre.db.hash? i = some phc) (he : e ∈ h₂) (hne : e.post.db.hash? i ≠ some phc) :
    w.db.hash? i ≠ some phc := by
  intro hw
  obtain ⟨h₃, h₄, rfl⟩ := List.append_of_mem he
  rw [show h₁ ++ e₀ :: (h₃ ++ e :: h₄) = (h₁ ++ e₀ :: h₃) ++ e :: h₄ by simp] at H hf
  obtain ⟨-, -, H₄⟩ := H.split
  obtain ⟨h₅, e', h₆, rfl, hpre, hpost, -⟩ :=
    H₄.origin (fun w => w.db.hash? i = some phc) hne hw
  obtain ⟨u, hu, hphc⟩ := Option.bind_eq_some_iff.mp hpost
  have hid := Db.id_of_user? hu
  -- `e'` sets the hash anew, and `e₀` is before it
  have hpair : ∀ u ∈ e'.post.db.users.rows, u.passwordHash ≠ e'.pre.db.hash? u.id →
      e₀.pre.db.hash? u.id ≠ u.passwordHash := by
    refine (List.pairwise_append.mp hf).2.2 e₀ (by simp) e' (by simp)
  refine hpair u (Db.mem_of_user? hu) ?_ ?_
  · rw [hphc, hid]
    exact fun h => hpre h.symm
  · rw [hphc, hid, h0]

/-- A check whose verified hash is not the account's hash any more adds no row. -/
theorem decide_login_of_ne {db db' : Db} {c : Checking} {device : Option Bytes} {d : Draws}
    {r : Result} (h : Effect A db (.decide c (.login device) d) r db')
    (hne : c.verified.hash ≠ db.hash? c.accountId) :
    db'.sessions = db.sessions ∧ db'.knownDevices = db.knownDevices := by
  cases h with
  | refused | failed => exact ⟨rfl, rfl⟩
  | login hp =>
    have hok := hp.password
    simp only [passwordOk, Bool.and_eq_true, decide_eq_true_eq] at hok
    refine absurd ?_ hne
    rw [hok.1.2, Db.hash?, hp.user]
    rfl

/-- In every state reached, every session and every device cookie was inserted by a login whose
submitted password matches the account's current hash; and with fresh hashes, a login verified
against a hash that is replaced before its transaction adds neither. -/
theorem password_epoch (A : App) (w₀ w : World) (h : List Event) (hinit : w₀.Init)
    (H : World.Run A w₀ h w) :
    (∀ s ∈ w.db.sessions, ∃ h₁ e h₂ password phc, h = h₁ ++ e :: h₂ ∧ e.InsertsSession s ∧
      (∀ e' ∈ h₂, ∃ r ∈ e'.post.db.sessions, r.fixed = s.fixed) ∧
      LoggedIn A h₁ e s.userId password ∧ w.db.hash? s.userId = some phc ∧
      A.verifyPassword password phc = true) ∧
    (∀ k ∈ w.db.knownDevices, ∃ h₁ e h₂ password phc, h = h₁ ++ e :: h₂ ∧ e.InsertsDevice k ∧
      (∀ e' ∈ h₂, k ∈ e'.post.db.knownDevices) ∧
      LoggedIn A h₁ e k.userId password ∧ w.db.hash? k.userId = some phc ∧
      A.verifyPassword password phc = true) ∧
    (FreshHashes h → ∀ h₁ e₀ h₂ e h₃ rid email password text device now d uid v phc,
      h = h₁ ++ e₀ :: h₂ ++ e :: h₃ →
      e₀.label = .login rid email password text device now → e.label = .decide rid d →
      checkRead A e₀.pre.db ⟨.email (normalizeEmail email), password, text, device⟩ now =
        some (uid, v) →
      v.hash = some phc → (∃ e' ∈ h₂, e'.post.db.hash? uid ≠ some phc) →
      e.post.db.sessions = e.pre.db.sessions ∧ e.post.db.knownDevices = e.pre.db.knownDevices) := by
  refine ⟨?_, ?_, ?_⟩
  · intro s hs
    obtain ⟨h₁, e, h₂, rfl, hins, ⟨c, u, db₁, hlogin, hid⟩, hkeep⟩ := H.session_origin hinit hs
    have hrow : ∀ e' ∈ e :: h₂, ∃ r ∈ e'.post.db.sessions, r.fixed = s.fixed := by
      intro e' he'
      rcases List.mem_cons.mp he' with rfl | he'
      · exact hins.2
      · exact hkeep e' he'
    obtain ⟨password, phc, hlog, hhash, hver⟩ := H.loggedIn hinit hlogin fun e' he' => by
      obtain ⟨r, hr, hfix⟩ := hrow e' he'
      exact .inl ⟨r, hr, (SessionRow.userId_of_fixed hfix).trans hid.symm⟩
    rw [hid] at hlog hhash
    exact ⟨h₁, e, h₂, password, phc, rfl, hins, hkeep, hlog, hhash, hver⟩
  · intro k hk
    obtain ⟨h₁, e, h₂, rfl, hins, ⟨c, u, db₁, hlogin, hid⟩, hkeep⟩ := H.device_origin hinit hk
    have hrow : ∀ e' ∈ e :: h₂, k ∈ e'.post.db.knownDevices := by
      intro e' he'
      rcases List.mem_cons.mp he' with rfl | he'
      · exact hins.2
      · exact hkeep e' he'
    obtain ⟨password, phc, hlog, hhash, hver⟩ := H.loggedIn hinit hlogin fun e' he' =>
      .inr ⟨k, hrow e' he', hid.symm⟩
    rw [hid] at hlog hhash
    exact ⟨h₁, e, h₂, password, phc, rfl, hins, hkeep, hlog, hhash, hver⟩
  · intro hfresh h₁ e₀ h₂ e h₃ rid email password text device now d uid v phc hh hl₀ hl hread hphc
      hne
    subst hh
    obtain ⟨H', hstep, -⟩ := H.split
    obtain ⟨-, hstep₀, H₂⟩ := H'.split
    obtain ⟨u, hu, -, -, -, hver⟩ := checkRead_spec hread
    have h0 : e₀.pre.db.hash? uid = some phc := by
      rw [Db.hash?, hu, Option.bind_some, (hver phc hphc).1]
    obtain ⟨e', he', hne⟩ := hne
    have hgone := FreshHashes.not_back (List.pairwise_append.mp hfresh).1 H' h0 he' hne
    rcases Event.commits_or_same hstep with hsame | ⟨tx, r, hc⟩
    · rw [hsame]
      exact ⟨rfl, rfl⟩
    have hfires := hc.fires
    rw [hl] at hfires
    cases hfires with
    | decide hq =>
      -- the transaction is the one of the check that was read at `e₀`
      have hchk := H₂.invariant (fun w => rid ≤ w.requests.seq ∧ ∀ q ∈ w.requests, q.rid = rid → _)
        (Event.login_checking hstep₀ hl₀ hread)
        (fun {t l u} hI hs => ⟨hI.1.trans (Event.seq_le (e := ⟨t, l, u⟩) hs),
          Event.checking_stable (e := ⟨t, l, u⟩) hs hI.1 hI.2⟩)
      cases hchk.2 _ hq rfl
      refine decide_login_of_ne hc.effect ?_
      rw [hphc]
      exact fun heq => hgone heq.symm

/-! ## A login that races a password change -/

namespace Race

def account : UserRow := .sample 1 "m@kohaku.test".toList "old password".toList .maintainer none

def start : World := .start ⟨[account], by decide⟩

/-- The second login is verified against the old hash and decided after the change; the third uses
the new password. -/
def labels : List Label :=
  [.login 1 account.email "old password".toList [] none 0, .decide 1 (.sample 1),
    .login 2 account.email "old password".toList [] none 10,
    .current 3 (asBytes (tokenText App.sample.base64 (Draws.sample 1).token)) 20,
    .post 3 (Draws.sample 1).csrf.toList (.password "old password".toList []
      "new password".toList "new password".toList [1]) none 20 (.sample 2),
    .decide 3 (.sample 3), .decide 2 (.sample 4),
    .login 4 account.email "new password".toList [] none 30, .decide 4 (.sample 5)]

def history : List Event := Lts.history (World.step App.sample) start labels

theorem init : start.Init := World.init_start (by decide)

theorem run : World.Run App.sample start history (Lts.last start history) :=
  .of_history (by decide)

end Race

/-- In the race the hashes set are fresh, the delayed login adds nothing, and the session that
is left was made by a login with the new password. -/
theorem password_epoch_race :
    FreshHashes Race.history ∧ ∃ s ∈ (Lts.last Race.start Race.history).db.sessions,
      ∃ h₁ e h₂ password phc, Race.history = h₁ ++ e :: h₂ ∧
        LoggedIn App.sample h₁ e s.userId password ∧
        (Lts.last Race.start Race.history).db.hash? s.userId = some phc ∧
        App.sample.verifyPassword password phc = true := by
  refine ⟨by unfold FreshHashes; decide, ?_⟩
  obtain ⟨s, hs⟩ := List.exists_mem_of_ne_nil (Lts.last Race.start Race.history).db.sessions.rows
    (by decide)
  obtain ⟨h₁, e, h₂, password, phc, hh, -, -, hlog, hhash, hver⟩ :=
    (password_epoch App.sample Race.start _ _ Race.init Race.run).1 s hs
  exact ⟨s, hs, h₁, e, h₂, password, phc, hh, hlog, hhash, hver⟩

end Kohaku
