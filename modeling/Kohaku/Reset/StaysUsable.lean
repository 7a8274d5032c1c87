import Kohaku.Reset.Tokens

/-!
# A reset link stays usable

A reset link is ended by its use, by a newer link, by a new password, by disabling the account and
by giving up the mail that carries it. `expire_reset_token` does the last one for every unused token
of the account: a mail that is given up after a newer link was issued stops that newer link
(`older_mail_stops_newer_link`). While no mail is given up beside a newer link that is unused, a
link works for its whole hour.
-/

namespace Kohaku

open Sql Credentials

/-- No mail is given up while a newer token that was issued for its account is stored and unused. -/
def SparesNewer (A : App) (h : List Event) : Prop :=
  ∀ e₁ e₂ e₃ uid token₁ token₂ now i, [e₁, e₂, e₃].Sublist h → e₁.Carries A uid token₁ i →
    e₂.Issues A uid token₂ now →
    newResetToken A uid now token₂ (e₂.pre.db.tokens.seq + 1) ∈ e₃.pre.db.tokens → ¬e₃.GivesUp A i

/-- None of the steps `h` ends the token that the step `e` issued for `uid`. -/
structure NotEnded (A : App) (e : Event) (uid : Nat) (token : Vector UInt8 32) (h : List Event) :
    Prop where
  newer : ∀ e' ∈ h, ∀ token' now, ¬e'.Issues A uid token' now
  /-- This covers the use of the token. -/
  password : ∀ e' ∈ h, ¬e'.SetsPassword A uid
  enabled : ∀ e' ∈ h, e'.label ≠ .setDisabled uid true
  mail : ∀ e' ∈ h, ∀ i, e.Carries A uid token i → ¬e'.GivesUp A i

/-- `link_submit` at `now` finds the link of `token` valid, and its transaction sets the password
of `uid` to whatever hash was submitted. -/
def Db.AcceptsLink (A : App) (db : Db) (uid : Nat) (token : Vector UInt8 32) (now : Time) : Prop :=
  tokenValid A db (tokenText A.base64 token) now = true ∧
    ∀ phc, ∃ db', (Tx.linkSubmit (A.sha256 (asBytes (tokenText A.base64 token))) phc now).run A db =
      some (.linked true, db') ∧ db'.hash? uid = some phc

variable {A : App} {w₀ w : World} {h h₁ h₂ : List Event} {e : Event} {uid : Nat}
  {token : Vector UInt8 32} {t now : Time}

/-- An enabled account stays so until it is disabled. -/
theorem Event.enabled (hs : e.pre.step A e.label = some e.post)
    (hen : ∃ u, e.pre.db.user? uid = some u ∧ u.disabled = false)
    (hd : e.label ≠ .setDisabled uid true) :
    ∃ u, e.post.db.user? uid = some u ∧ u.disabled = false := by
  rcases Event.commits_or_same hs with hsame | ⟨tx, r, hc⟩
  · rw [hsame]
    exact hen
  · obtain ⟨u, hu, hdis⟩ := hen
    obtain ⟨u', hu', hrow⟩ := hc.effect.row hu
    refine ⟨u', hu', ?_⟩
    rcases hrow.disabled with heq | rfl
    · rw [heq, hdis]
    · -- the only transaction that writes the column
      have hf := hc.fires
      generalize e.label = l at hf hd
      cases hf
      rw [Db.id_of_user? hu] at hd
      exact Bool.eq_false_iff.mpr fun htrue => hd (by rw [htrue])

/-- A stored, unused and unexpired token of an enabled account is accepted. -/
theorem acceptsLink_of_mem (hinit : w₀.Init) (H : World.Run A w₀ h w)
    (hen : ∃ u, w.db.user? uid = some u ∧ u.disabled = false) {i : Nat}
    (hmem : newResetToken A uid t token i ∈ w.db.tokens) (hlt : now < t + Mail.resetLifetime) :
    w.db.AcceptsLink A uid token now := by
  obtain ⟨u, hu, hdis⟩ := hen
  have hacc : acceptable w.db (A.sha256 (asBytes (tokenText A.base64 token))) now
      (newResetToken A uid t token i) = true :=
    acceptable_eq_true.mpr ⟨rfl, rfl, rfl, hlt, uid, u, rfl, hu, hdis⟩
  refine ⟨?_, fun phc => ?_⟩
  · rw [tokenValid, isTokenText_tokenText, Bool.true_and]
    exact Table.any_eq_true.mpr ⟨_, hmem, hacc⟩
  · have hone : w.db.tokens.rows.filter
        (acceptable w.db (A.sha256 (asBytes (tokenText A.base64 token))) now) =
        [newResetToken A uid t token i] := by
      refine Table.filter_eq_singleton hmem hacc fun k hk hp => ?_
      exact World.Run.tokens_unique hinit H hk hmem (acceptable_eq_true.mp hp).1
    simp only [Tx.run, linkSubmit, hone, hu, setPassword_eq, Option.bind_eq_bind, Option.bind_some,
      Option.pure_def, Option.map_some]
    refine ⟨_, rfl, ?_⟩
    have hrow : (w.db.updateUser uid fun u => { u with passwordHash := some phc }).user? uid =
        some { u with passwordHash := some phc } := by
      rw [Db.user?_updateUser_self, hu]
      rfl
    exact congrArg (Option.bind · fun u => u.passwordHash) hrow

/-- A reset mail of `uid` that is given up while the token that `e` issued for `uid` is unused
carries that token, if no newer one was issued. -/
theorem carries_of_givesUp (hinit : w₀.Init) (H : World.Run A w₀ (h₁ ++ e :: h₂) w)
    (hspare : SparesNewer A (h₁ ++ e :: h₂)) (hissue : e.Issues A uid token t)
    (hnewer : ∀ e' ∈ h₂, ∀ token' now, ¬e'.Issues A uid token' now) {g₁ g₂ : List Event}
    {e' : Event} (hh : h₂ = g₁ ++ e' :: g₂)
    (hmem : newResetToken A uid t token (e.pre.db.tokens.seq + 1) ∈ e'.pre.db.tokens)
    {row : OutboxRow} (hrow : row ∈ e'.pre.db.outbox)
    (hreset : row.IsReset uid) (hgive : e'.GivesUp A row.id) : e.Carries A uid token row.id := by
  obtain ⟨H₁, hs, H₂⟩ := H.split
  rw [hh] at H₂
  obtain ⟨H₃, -, -⟩ := H₂.split
  by_cases hpost : ∃ row' ∈ e.post.db.outbox, row'.id = row.id ∧ row'.IsReset uid
  · by_cases hpre : ∃ row' ∈ e.pre.db.outbox, row'.id = row.id ∧ row'.IsReset uid
    · -- queued before `e`: the token of `e` is newer
      obtain ⟨a, e₁, b, token₁, rfl, hcar⟩ :=
        World.Run.mail_origin H₁ (by rw [hinit.outbox]; simp) hpre
      have hsub : [e₁, e, e'].Sublist ((a ++ e₁ :: b) ++ e :: h₂) := by
        refine List.Sublist.append
          (List.singleton_sublist.mpr (by simp) : [e₁].Sublist (a ++ e₁ :: b)) ?_
        refine List.Sublist.cons_cons e (List.singleton_sublist.mpr ?_)
        simp [hh]
      exact absurd hgive (hspare e₁ e e' uid token₁ token t row.id hsub hcar hissue hmem)
    · obtain ⟨token', hcar⟩ := Event.mail_back hs hpre hpost
      rw [hcar.token_eq hissue] at hcar
      exact hcar
  · -- queued after `e`, with a newer token
    obtain ⟨a, e₁, b, token₁, rfl, hcar⟩ :=
      World.Run.mail_origin H₃ hpost ⟨row, hrow, rfl, hreset⟩
    obtain ⟨now, hnew⟩ := hcar.issues
    exact absurd hnew (hnewer e₁ (by simp [hh]) token₁ now)

/-- A token that nothing has ended is stored and unused. -/
theorem token_stays (hinit : w₀.Init) (H : World.Run A w₀ (h₁ ++ e :: h₂) w)
    (hspare : SparesNewer A (h₁ ++ e :: h₂)) (hissue : e.Issues A uid token t)
    (hend : NotEnded A e uid token h₂) (hlt : now < t + Mail.resetLifetime)
    (hclock : ∀ e' ∈ h₂, ∀ m, e'.label = .retentionSignIn m → m ≤ now) :
    newResetToken A uid t token (e.pre.db.tokens.seq + 1) ∈ w.db.tokens := by
  obtain ⟨-, -, H₂⟩ := H.split
  refine H₂.stays (fun w => newResetToken A uid t token (e.pre.db.tokens.seq + 1) ∈ w.db.tokens) ?_
    ?_
  · obtain ⟨tx, r, hc, hi⟩ := hissue
    exact (hc.effect.issued hi).1
  · intro g₁ e' g₂ hh H₃ hs hmem
    have he' : e' ∈ h₂ := by simp [hh]
    rcases Event.commits_or_same hs with hsame | ⟨tx, r, hc⟩
    · rw [hsame]
      exact hmem
    · refine hc.effect.token_kept hmem rfl rfl ?_ ?_
      · rintro (⟨token', now', hi⟩ | ⟨phc, hp⟩ | ⟨row, hrow, hid, hreset⟩)
        · exact hend.newer e' he' token' now' ⟨tx, r, hc, hi⟩
        · exact hend.password e' he' ⟨tx, r, phc, hc, hp⟩
        · have hgive : Event.GivesUp A e' row.id := ⟨tx, r, hc, hid⟩
          have hcar := carries_of_givesUp hinit H hspare hissue hend.newer hh hmem hrow hreset hgive
          exact hend.mail e' he' row.id hcar hgive
      · rintro m rfl
        have hf := hc.fires
        generalize hl : e'.label = l at hf
        cases hf
        exact (hclock e' he' m hl).trans_lt hlt

/-- A reset link works for its hour unless it is used, a newer one is issued, the password is set,
the account is disabled or the mail that carries it is given up; and giving up that mail stops
it. -/
theorem reset_link_stays_usable (A : App) (w₀ w : World) (h₁ h₂ : List Event) (e : Event)
    (hinit : w₀.Init) (H : World.Run A w₀ (h₁ ++ e :: h₂) w)
    (hspare : SparesNewer A (h₁ ++ e :: h₂)) (uid : Nat) (token : Vector UInt8 32) (t : Time)
    (hissue : e.Issues A uid token t)
    (henabled : ∃ u, e.pre.db.user? uid = some u ∧ u.disabled = false) :
    (∀ now, now < t + Mail.resetLifetime →
      (∀ e' ∈ h₂, ∀ m, e'.label = .retentionSignIn m → m ≤ now) →
      NotEnded A e uid token h₂ → w.db.AcceptsLink A uid token now) ∧
    ∀ e' ∈ h₂, ∀ i, e.Carries A uid token i → e'.GivesUp A i →
      ∀ k ∈ e'.post.db.tokens, k.id = e.pre.db.tokens.seq + 1 → k.usedAt ≠ none := by
  obtain ⟨H₁, hs, H₂⟩ := H.split
  refine ⟨fun now hlt hclock hend => ?_, fun e' he' i hcar hgive k hk hid hun => ?_⟩
  · refine acceptsLink_of_mem hinit H ?_ (token_stays hinit H hspare hissue hend hlt hclock) hlt
    have hpost : ∃ u, e.post.db.user? uid = some u ∧ u.disabled = false := by
      refine Event.enabled hs henabled fun hl => ?_
      -- the step issues a token
      obtain ⟨tx, r, hc, hi⟩ := hissue
      have hf := hc.fires
      rw [hl] at hf
      cases hf
      cases hi
    refine H₂.stays (fun w => ∃ u, w.db.user? uid = some u ∧ u.disabled = false) hpost ?_
    intro g₁ e' g₂ hh H₃ hs' hen
    exact Event.enabled hs' hen (hend.enabled e' (by simp [hh]))
  · obtain ⟨g₁, g₂, rfl, H₃, hs', -⟩ := H₂.of_mem he'
    obtain ⟨tx, r, hc, hstop⟩ := hgive.stops (World.Run.carrier hcar H₃)
    obtain ⟨hseq, -⟩ := World.Run.issued_fixed hissue H₃
    obtain ⟨-, hfix⟩ := World.Run.issued_fixed hissue (Lts.Exec.snoc H₃ hs')
    have hfree := hc.effect.stops hstop hk (hid ▸ hseq)
    have hfix := hfix k hk hid
    simp [Mail.unusedReset, hun, TokenRow.userId_of_fixed hfix, TokenRow.purpose_of_fixed hfix]
      at hfree

/-! ## Two runs -/

/-- The steps that may issue a token, set a password, disable an account or delete a token. -/
def Label.mayEnd : Label → Bool
  | .requestReset .. | .resetPassword .. | .decide .. | .linkSubmit .. | .setDisabled ..
  | .retentionSignIn .. => true
  | _ => false

/-- A token whose link was printed is ended by none of the other steps. -/
theorem NotEnded.of_printed {email : Str} {r : Result}
    (hp : e.Commits A (.resetPassword email t token) r) (h : ∀ e' ∈ h₂, e'.label.mayEnd = false) :
    NotEnded A e uid token h₂ := by
  refine ⟨fun e' he' token' now hi => ?_, fun e' he' hset => ?_, fun e' he' hd => ?_,
    fun e' _ i hcar _ => ?_⟩
  · obtain ⟨tx, r, hc, hi⟩ := hi
    have hf := hc.fires
    have hend := h e' he'
    generalize e'.label = l at hf hend
    cases hi <;> cases hf <;> cases hend
  · obtain ⟨tx, r, phc, hc, hset⟩ := hset
    have hf := hc.fires
    have hend := h e' he'
    generalize e'.label = l at hf hend
    cases hset <;> cases hf <;> cases hend
  · have hend := h e' he'
    rw [hd] at hend
    cases hend
  · obtain ⟨email', now', hc, -⟩ := hcar
    cases (hp.unique hc).1

/-- A history in which no mail is given up. -/
theorem SparesNewer.of_none (hnone : ∀ e ∈ h, ((e.pre.plan A e.label).bind Plan.tx).all
    (fun tx => tx.givenUp e.pre.db = []) = true) : SparesNewer A h := by
  intro e₁ e₂ e₃ uid token₁ token₂ now i hsub _ _ _ hgive
  obtain ⟨tx, r, ⟨p, hp, htx, -⟩, hi⟩ := hgive
  have hmem : e₃ ∈ h := hsub.subset (by simp)
  have hnil := hnone e₃ hmem
  simp only [hp, Option.bind_some, htx, Option.all_some, decide_eq_true_eq] at hnil
  rw [hnil] at hi
  cases hi

namespace ResetLink

def account : UserRow := .sample 1 "m@kohaku.test".toList "the password".toList .maintainer none

def start : World := .start ⟨[account], by decide⟩

/-- The token of the printed link. -/
def secret : Vector UInt8 32 := Vector.replicate 32 2

theorem init : start.Init := World.init_start (by decide)

/-- A reset is requested and its mail delivered; the operator prints a second link, and retention
runs when the first would have expired. -/
def labels : List Label :=
  [.requestReset account.email 0 (Vector.replicate 32 1), .pick 0 0, .record .sent 1 1,
    .resetPassword account.email 3000 secret, .retentionOutbox 3605 3605]

def history : List Event := Lts.history (World.step App.sample) start labels

theorem run : World.Run App.sample start history (Lts.last start history) :=
  .of_history (by decide)

/-- The step that prints the second link. -/
def printed : Event := history.get ⟨3, by decide⟩

theorem cut : history = history.take 3 ++ printed :: history.drop 4 := by
  rw [printed, List.get_eq_getElem, List.getElem_cons_drop, List.take_append_drop]

theorem commits : printed.Commits App.sample (.resetPassword account.email 3000 secret)
    (.link (resetUrl App.sample secret)) :=
  Event.commits_of_eval (run.step_of_mem (List.get_mem ..)) (by decide) (by decide)

theorem issues : printed.Issues App.sample 1 secret 3000 :=
  ⟨_, _, commits, .cli (by decide)⟩

end ResetLink

/-- The printed link works after the first one has expired. -/
theorem printed_link_works :
    (Lts.last ResetLink.start ResetLink.history).db.AcceptsLink App.sample 1
      ResetLink.secret 6599 := by
  have hrun := ResetLink.run
  have hspare : SparesNewer App.sample ResetLink.history := .of_none (by decide)
  have hmay : ∀ e ∈ ResetLink.history.drop 4, e.label.mayEnd = false := by decide
  have hen : (ResetLink.printed.pre.db.user? 1).map (fun u => u.disabled) = some false := by
    decide
  rw [ResetLink.cut] at hrun hspare
  have key :=
    reset_link_stays_usable App.sample ResetLink.start _ _ _ _ ResetLink.init hrun hspare 1
    ResetLink.secret 3000 ResetLink.issues (Option.map_eq_some_iff.mp hen)
  rw [← ResetLink.cut] at key
  refine key.1 6599 (by decide) (fun e he m hl => ?_) (.of_printed ResetLink.commits hmay)
  have := hmay e he
  rw [hl] at this
  cases this

namespace OlderMail

open ResetLink (account start secret)

/-- A reset is requested and its mail never leaves; the operator prints a second link, and the
worker gives the mail up at its deadline. -/
def labels : List Label :=
  [.requestReset account.email 0 (Vector.replicate 32 1), .resetPassword account.email 3000 secret,
    .pick 3600 3600]

def history : List Event := Lts.history (World.step App.sample) start labels

theorem run : World.Run App.sample start history (Lts.last start history) :=
  .of_history (by decide)

/-- The step that prints the second link. -/
def printed : Event := history.get ⟨1, by decide⟩

theorem cut : history = history.take 1 ++ printed :: history.drop 2 := by
  rw [printed, List.get_eq_getElem, List.getElem_cons_drop, List.take_append_drop]

theorem commits : printed.Commits App.sample (.resetPassword account.email 3000 secret)
    (.link (resetUrl App.sample secret)) :=
  Event.commits_of_eval (run.step_of_mem (List.get_mem ..)) (by decide) (by decide)

end OlderMail

/-- The second link is dead at 3600 although nothing ended it. -/
theorem older_mail_stops_newer_link :
    ResetLink.start.Init ∧
      World.Run App.sample ResetLink.start
        (OlderMail.history.take 1 ++ OlderMail.printed :: OlderMail.history.drop 2)
        (Lts.last ResetLink.start OlderMail.history) ∧
      OlderMail.printed.Issues App.sample 1 ResetLink.secret 3000 ∧
      (∃ u, OlderMail.printed.pre.db.user? 1 = some u ∧ u.disabled = false) ∧
      NotEnded App.sample OlderMail.printed 1 ResetLink.secret (OlderMail.history.drop 2) ∧
      (3600 : Time) < 3000 + Mail.resetLifetime ∧
      tokenValid App.sample (Lts.last ResetLink.start OlderMail.history).db
        (tokenText App.sample.base64 ResetLink.secret) 3600 = false ∧
      ∀ phc,
        (Tx.linkSubmit (App.sample.sha256 (asBytes (tokenText App.sample.base64 ResetLink.secret)))
          phc 3600).run App.sample (Lts.last ResetLink.start OlderMail.history).db =
        some (.linked false, (Lts.last ResetLink.start OlderMail.history).db) := by
  have hen : (OlderMail.printed.pre.db.user? 1).map (fun u => u.disabled) = some false := by
    decide
  have hnil : (Lts.last ResetLink.start OlderMail.history).db.tokens.rows.filter
      (acceptable (Lts.last ResetLink.start OlderMail.history).db
        (App.sample.sha256 (asBytes (tokenText App.sample.base64 ResetLink.secret))) 3600) =
          [] := by decide
  refine ⟨ResetLink.init, ?_, ⟨_, _, OlderMail.commits, .cli (by decide)⟩,
    Option.map_eq_some_iff.mp hen, .of_printed OlderMail.commits (by decide), by decide,
    by decide, fun phc => ?_⟩
  · rw [← OlderMail.cut]
    exact OlderMail.run
  · simp only [Tx.run, linkSubmit, hnil, Option.map_some]

end Kohaku
