import Kohaku.Reset.Tokens

/-!
# Reset tokens are single-use and single-live

A reset token is identified by its row id, which is never given again. The account has at most one
unused token; a link that sets the password consumes that token while it is unexpired and the
account enabled, and since it was issued nothing has stopped it. `link_submit` checks the token
twice, before and after the new password is hashed; only the second check, in the transaction,
matters here.
-/

namespace Kohaku

open Sql Credentials

/-- The step sets the password by consuming the token `k`. -/
def Event.Consumes (A : App) (e : Event) (k : TokenRow) (now : Time) : Prop :=
  ∃ tokenHash phc, e.Commits A (.linkSubmit tokenHash phc now) (.linked true) ∧
    k ∈ e.pre.db.tokens ∧ acceptable e.pre.db tokenHash now k = true

/-- No two tokens of the run have the same hash. -/
def FreshSecrets (A : App) (h : List Event) : Prop :=
  ∀ e₁ ∈ h, ∀ e₂ ∈ h, ∀ uid₁ uid₂ token₁ token₂ t₁ t₂, e₁.Issues A uid₁ token₁ t₁ →
    e₂.Issues A uid₂ token₂ t₂ →
    A.sha256 (asBytes (tokenText A.base64 token₁)) =
      A.sha256 (asBytes (tokenText A.base64 token₂)) → e₁ = e₂

variable {A : App} {w₀ w : World} {h h₁ h₂ : List Event} {e e' : Event} {uid : Nat}
  {k k' : TokenRow} {now now' : Time}

/-- A link that sets the password consumes a token. -/
theorem Event.Commits.consumes {tokenHash : Bytes} {phc : Str}
    (hc : e.Commits A (.linkSubmit tokenHash phc now) (.linked true)) :
    ∃ k, e.Consumes A k now := by
  have heff := hc.effect
  generalize e.post.db = db' at heff
  cases heff with
  | linkConsumed hk hacc => exact ⟨_, tokenHash, phc, hc, hk, hacc⟩

namespace Event.Consumes

/-- A token that is consumed is an unused and unexpired reset token of an enabled account, and
consuming it sets the password of that account. -/
theorem spec (hc : e.Consumes A k now) : k ∈ e.pre.db.tokens ∧ now < k.expiresAt ∧
    ∃ uid, Mail.unusedReset uid k = true ∧
      (∃ u, e.pre.db.user? uid = some u ∧ u.disabled = false) ∧ e.SetsPassword A uid := by
  obtain ⟨tokenHash, phc, hc, hk, hacc⟩ := hc
  obtain ⟨-, hpur, hun, hlt, uid, u, huid, hu, hdis⟩ := acceptable_eq_true.mp hacc
  refine ⟨hk, hlt, uid, Mail.unusedReset_eq_true.mpr ⟨huid, hpur, hun⟩, ⟨u, hu, hdis⟩,
    _, _, phc, hc,
    .reset ?_⟩
  have heff := hc.effect
  generalize e.post.db = db' at heff
  cases heff with
  | linkConsumed hk₁ hacc₁ huniq =>
    rw [Tx.subject_linkSubmit hk₁ hacc₁ huniq, ← huniq k hk hacc, huid]

/-- Right after it is consumed no row with the token's id is unused. -/
theorem used (hc : e.Consumes A k now) (hs : e.pre.step A e.label = some e.post) :
    ∀ t ∈ e.post.db.tokens, t.id = k.id → t.usedAt ≠ none := by
  intro t ht hid hnone
  obtain ⟨hk, -, uid, hun, -, hset⟩ := hc.spec
  obtain ⟨tx, r, hcom, hstop⟩ := hset.stops
  have hseq : k.id ≤ e.pre.db.tokens.seq := AutoTable.id_le_seq hk
  rcases Event.token_back hs ht with ⟨t₀, ht₀, hback⟩ | ⟨_, _, _, -, heq, -⟩
  · -- a row that is still unused is `k` itself, which the step stopped
    rw [← hback.2 hnone] at ht₀
    have hfree := hcom.effect.stops hstop ht (hid ▸ hseq)
    rw [AutoTable.eq_of_id_eq ht₀ hk hid, hun] at hfree
    cases hfree
  · rw [← hid, heq] at hseq
    exact absurd hseq (Nat.not_succ_le_self _)

/-- A token that was consumed stays used. -/
theorem used_since (hc : e.Consumes A k now) (hs : e.pre.step A e.label = some e.post)
    (H : World.Run A e.post h w) : ∀ t ∈ w.db.tokens, t.id = k.id → t.usedAt ≠ none := by
  have hseq : k.id ≤ e.pre.db.tokens.seq := AutoTable.id_le_seq hc.spec.1
  have key := H.invariant
    (fun w => k.id ≤ w.db.tokens.seq ∧ ∀ t ∈ w.db.tokens, t.id = k.id → t.usedAt ≠ none)
    ⟨hseq.trans (Event.tokens_grows hs).seq_le, hc.used hs⟩ ?_
  · exact key.2
  · intro m l u hI hs
    have hgrow := Event.tokens_grows (e := ⟨m, l, u⟩) hs
    refine ⟨hI.1.trans hgrow.seq_le, hgrow.kept (fun hb => TokenRow.id_of_fixed hb.1) ?_ hI.1 hI.2⟩
    intro a b hb ha hnone
    rw [hb.2 hnone] at hnone
    exact ha hnone

end Event.Consumes

/-- One step keeps the account's unused token single: a new token stops the others. -/
theorem Event.single_live (hs : e.pre.step A e.label = some e.post)
    (hpre : ∀ k ∈ e.pre.db.tokens, ∀ k' ∈ e.pre.db.tokens, Mail.unusedReset uid k = true →
      Mail.unusedReset uid k' = true → k = k') :
    ∀ k ∈ e.post.db.tokens, ∀ k' ∈ e.post.db.tokens, Mail.unusedReset uid k = true →
      Mail.unusedReset uid k' = true → k = k' := by
  -- an old and a new unused token of one account do not exist together
  have hmixed : ∀ {k k₀ k'}, k ∈ e.post.db.tokens → k₀ ∈ e.pre.db.tokens → TokenBack k₀ k →
      (∃ uid' token now, e.Issues A uid' token now ∧
        k' = newResetToken A uid' now token (e.pre.db.tokens.seq + 1)) →
      Mail.unusedReset uid k = true → Mail.unusedReset uid k' = true → False := by
    rintro k k₀ _ hk hk₀ hback ⟨uid', token, now, ⟨tx, r, hc, hi⟩, rfl⟩ hun hun'
    cases (Mail.unusedReset_eq_true.mp hun').1
    have hle : k.id ≤ e.pre.db.tokens.seq :=
      TokenRow.id_of_fixed hback.1 ▸ AutoTable.id_le_seq hk₀
    rw [(hc.effect.issued hi).2.2 k hk hle] at hun
    cases hun
  intro k hk k' hk' hun hun'
  have hnone := (Mail.unusedReset_eq_true.mp hun).2.2
  have hnone' := (Mail.unusedReset_eq_true.mp hun').2.2
  rcases Event.token_back hs hk with ⟨k₀, hk₀, hb⟩ | ⟨uid₁, token₁, t₁, hi₁, heq₁, -⟩
  · rcases Event.token_back hs hk' with ⟨k₀', hk₀', hb'⟩ | ⟨uid₂, token₂, t₂, hi₂, heq₂, -⟩
    · rw [← hb.2 hnone] at hk₀
      rw [← hb'.2 hnone'] at hk₀'
      exact hpre k hk₀ k' hk₀' hun hun'
    · exact (hmixed hk hk₀ hb ⟨uid₂, token₂, t₂, hi₂, heq₂⟩ hun hun').elim
  · rcases Event.token_back hs hk' with ⟨k₀', hk₀', hb'⟩ | ⟨uid₂, token₂, t₂, hi₂, heq₂, -⟩
    · exact (hmixed hk' hk₀' hb' ⟨uid₁, token₁, t₁, hi₁, heq₁⟩ hun' hun).elim
    · refine AutoTable.eq_of_id_eq hk hk' ?_
      rw [heq₁, heq₂]

namespace World.Run

/-- An account has at most one unused reset token. -/
theorem single_live (hinit : w₀.Init) (H : World.Run A w₀ h w) (hk : k ∈ w.db.tokens)
    (hk' : k' ∈ w.db.tokens) (hun : Mail.unusedReset uid k = true)
    (hun' : Mail.unusedReset uid k' = true) : k = k' := by
  refine H.invariant (fun w => ∀ k ∈ w.db.tokens, ∀ k' ∈ w.db.tokens, Mail.unusedReset uid k =
    true → Mail.unusedReset uid k' = true → k = k') ?_ ?_ k hk k' hk' hun hun'
  · rw [hinit.tokens]
    intro k hk
    simp at hk
  · intro m l u hI hs
    exact Event.single_live (e := ⟨m, l, u⟩) hs hI

/-- The token that a link consumes was issued for the account, and since then no newer one was
issued, the password was not set and the mail that carries it was not given up. -/
theorem consumed_live (hinit : w₀.Init) (H : World.Run A w₀ h e.pre) (hc : e.Consumes A k now) :
    now < k.expiresAt ∧ ∃ uid, k.userId = some uid ∧
      (∃ u, e.pre.db.user? uid = some u ∧ u.disabled = false) ∧ e.SetsPassword A uid ∧
      ∃ h₁ e₁ h₂ token t, h = h₁ ++ e₁ :: h₂ ∧ e₁.Issues A uid token t ∧
        k = newResetToken A uid t token (e₁.pre.db.tokens.seq + 1) ∧
        ∀ e' ∈ h₂, (∀ token' t', ¬e'.Issues A uid token' t') ∧ ¬e'.SetsPassword A uid ∧
          ∀ i, e₁.Carries A uid token i → ¬e'.GivesUp A i := by
  obtain ⟨hk, hlt, uid, hun, hen, hset⟩ := hc.spec
  obtain ⟨huid, -, hnone⟩ := Mail.unusedReset_eq_true.mp hun
  obtain ⟨h₁, e₁, h₂, uid', token, t, rfl, hi, heq, hlive⟩ := live_token hinit H hk hnone
  obtain rfl : uid' = uid := by
    rw [heq] at huid
    exact Option.some.inj huid
  refine ⟨hlt, uid', huid, hen, hset, h₁, e₁, h₂, token, t, rfl, hi, heq, fun e' he' => ?_⟩
  have hstop := (hlive e' he').2
  refine ⟨fun token' t' hi' => hstop hi'.stops, fun hp => hstop hp.stops, fun i hcar hgive => ?_⟩
  -- the row `i` is still the mail of the account when it is given up
  obtain ⟨-, -, H₂⟩ := H.split
  obtain ⟨g₁, g₂, -, H₃, -, -⟩ := H₂.of_mem he'
  exact hstop (hgive.stops (carrier hcar H₃))

end World.Run

/-- Reset tokens are single-use and single-live. -/
theorem reset_tokens_single_use (A : App) (w₀ w : World) (h : List Event) (hinit : w₀.Init)
    (H : World.Run A w₀ h w) :
    (∀ uid, ∀ k ∈ w.db.tokens, ∀ k' ∈ w.db.tokens, Mail.unusedReset uid k = true →
      Mail.unusedReset uid k' = true → k = k') ∧
    (∀ h₁ e h₂ tokenHash phc now, h = h₁ ++ e :: h₂ →
      e.Commits A (.linkSubmit tokenHash phc now) (.linked true) →
      ∃ k, e.Consumes A k now ∧ now < k.expiresAt ∧ ∃ uid, k.userId = some uid ∧
        (∃ u, e.pre.db.user? uid = some u ∧ u.disabled = false) ∧ e.SetsPassword A uid ∧
        ∃ g₁ e₁ g₂ token t, h₁ = g₁ ++ e₁ :: g₂ ∧ e₁.Issues A uid token t ∧
          k = newResetToken A uid t token (e₁.pre.db.tokens.seq + 1) ∧
          ∀ e' ∈ g₂, (∀ token' t', ¬e'.Issues A uid token' t') ∧ ¬e'.SetsPassword A uid ∧
            ∀ i, e₁.Carries A uid token i → ¬e'.GivesUp A i) ∧
    (∀ h₁ e h₂ e' h₃ k k' now now', h = h₁ ++ e :: (h₂ ++ e' :: h₃) → e.Consumes A k now →
      e'.Consumes A k' now' → k.id ≠ k'.id ∧ (FreshSecrets A h → k.tokenHash ≠ k'.tokenHash)) ∧
    ∀ e ∈ h, ∀ token now, e.label = .linkForm token now → e.post = e.pre := by
  refine ⟨fun uid k hk k' hk' => H.single_live hinit hk hk', ?_, ?_, ?_⟩
  · rintro h₁ e h₂ tokenHash phc now rfl hcom
    obtain ⟨k, hc⟩ := hcom.consumes
    exact ⟨k, hc, World.Run.consumed_live hinit H.split.1 hc⟩
  · rintro h₁ e h₂ e' h₃ k k' now now' rfl hc hc'
    obtain ⟨H₁, hs, H₂⟩ := H.split
    obtain ⟨H₃, -, -⟩ := H₂.split
    have hne : k.id ≠ k'.id := by
      intro hid
      obtain ⟨hk', -, uid, hun, -⟩ := hc'.spec
      exact hc.used_since hs H₃ k' hk' hid.symm (Mail.unusedReset_eq_true.mp hun).2.2
    refine ⟨hne, fun hfresh heq => ?_⟩
    -- two tokens with one hash would have been issued by one step, under one id
    obtain ⟨-, uid, -, -, -, g₁, e₁, g₂, token, t, rfl, hi, hk, -⟩ :=
      World.Run.consumed_live hinit H₁ hc
    obtain ⟨-, uid', -, -, -, g₁', e₁', g₂', token', t', hh, hi', hk', -⟩ :=
      World.Run.consumed_live hinit (H₁.append (.cons hs H₃)) hc'
    have hmem : e₁' ∈ (g₁ ++ e₁ :: g₂) ++ ⟨e.pre, e.label, e.post⟩ :: h₂ := by
      rw [hh]
      simp
    have hsame : e₁ = e₁' := by
      refine hfresh e₁ (by simp) e₁' ?_ uid uid' token token' t t' hi hi' ?_
      · rcases List.mem_append.mp hmem with hm | hm
        · exact List.mem_append_left _ hm
        · refine List.mem_append_right _ ?_
          rcases List.mem_cons.mp hm with rfl | hm
          · exact List.mem_cons_self
          · exact List.mem_cons_of_mem _ (List.mem_append_left _ hm)
      · rw [hk, hk'] at heq
        exact heq
    rw [hk, hk', hsame] at hne
    exact hne rfl
  · intro e he token now hl
    have hs := H.step_of_mem he
    rw [hl] at hs
    exact (Option.some.inj hs).symm

namespace RacedLink

def account : UserRow := .sample 1 "m@kohaku.test".toList "the password".toList .maintainer none

def start : World := .start ⟨[account], by decide⟩

def secret : Vector UInt8 32 := Vector.replicate 32 1

/-- Two requests submit the link and both find it valid; then both run their transactions. -/
def labels : List Label :=
  [.requestReset account.email 0 secret,
    .linkRead 1 (tokenText App.sample.base64 secret) "a first password".toList
      "a first password".toList [1] 10,
    .linkRead 2 (tokenText App.sample.base64 secret) "a second password".toList
      "a second password".toList [2] 11,
    .linkSubmit 1 20, .linkSubmit 2 21]

def history : List Event := Lts.history (World.step App.sample) start labels

theorem run : World.Run App.sample start history (Lts.last start history) :=
  .of_history (by decide)

def winner : Event := history.get ⟨3, by decide⟩

def loser : Event := history.get ⟨4, by decide⟩

theorem cut : history = history.take 3 ++ winner :: history.drop 4 := by
  rw [winner, List.get_eq_getElem, List.getElem_cons_drop, List.take_append_drop]

end RacedLink

/-- The first of two raced submissions consumes the token, the second is refused. -/
theorem raced_link_consumed_once :
    (∃ k, RacedLink.winner.Consumes App.sample k 20 ∧ 20 < k.expiresAt) ∧
      RacedLink.loser.Commits App.sample
        (.linkSubmit (asBytes (tokenText App.sample.base64 RacedLink.secret))
        ("a second password".toList ++ ['\x02']) 21) (.linked false) := by
  have hwin : RacedLink.winner.Commits App.sample
      (.linkSubmit (asBytes (tokenText App.sample.base64 RacedLink.secret))
        ("a first password".toList ++ ['\x01']) 20)
      (.linked true) :=
    Event.commits_of_eval (RacedLink.run.step_of_mem (List.get_mem ..)) (by decide)
      (by decide)
  obtain ⟨-, hcon, -⟩ := reset_tokens_single_use App.sample RacedLink.start _ _
    (World.init_start (by decide)) RacedLink.run
  obtain ⟨k, hc, hlt, -⟩ := hcon _ _ _ _ _ _ RacedLink.cut hwin
  exact ⟨⟨k, hc, hlt⟩, Event.commits_of_eval (RacedLink.run.step_of_mem (List.get_mem ..))
    (by decide) (by decide)⟩

end Kohaku
