import Kohaku.TwoFactor.Factors

/-!
# Recovery codes without two-factor login

`confirm_totp` and `disable_totp` change the enrollment and the recovery codes in one transaction.
`regenerate_codes` looks at the enrollment in the session layer's read and not again in its
transaction, so a `disable_totp` in between leaves codes of an account that is not enrolled. As long
as the account is enrolled when its codes are regenerated, codes exist only with an enrollment.
-/

namespace Kohaku

open Sql Credentials

/-- A `regenerate_codes` that issues codes does so for an account that is enrolled. -/
def Event.RegeneratesEnrolled (A : App) (e : Event) : Prop :=
  ∀ c d codes, e.Commits A (.decide c .regenerateCodes d) (.outcome (.success (.codes codes))) →
    (e.pre.db.nonce? c.accountId).isSome = true

/-- The account's codes are those of an enrollment. -/
def Db.CodesEnrolled (db : Db) (uid : Nat) : Prop :=
  (db.user? uid).isSome = true → db.nonce? uid = none → db.codes uid = []

variable {A : App} {db db' : Db} {tx : Tx} {r : Result} {w₀ w : World} {h : List Event} {e : Event}
  {uid : Nat}

/-! ## At most ten -/

theorem Effect.codes_le (h : Effect A db tx r db') (hle : (db.codes uid).length ≤ Recovery.count) :
    (db'.codes uid).length ≤ Recovery.count := by
  cases h.codes uid with
  | same _ _ heq => rw [heq]; exact hle
  | accepted _ _ _ heq =>
    rw [heq]
    exact (List.length_filter_le _ _).trans hle
  | replaced _ hlen _ heq => rw [heq, List.length_map, hlen]
  | disabled _ heq => rw [heq]; exact Nat.zero_le _

theorem World.Run.codes_le (hinit : w₀.Init) (H : World.Run A w₀ h w) :
    (w.db.codes uid).length ≤ Recovery.count := by
  apply H.invariant fun w => (w.db.codes uid).length ≤ Recovery.count
  · rw [Db.codes, hinit.recoveryCodes]
    exact Nat.zero_le _
  · intro t l u hle hs
    rcases Event.commits_or_same (e := ⟨t, l, u⟩) hs with hsame | ⟨tx, r, hc⟩
    · rw [show u.db = t.db from hsame]
      exact hle
    · exact hc.effect.codes_le hle

/-! ## Only with an enrollment -/

/-- Codes are issued to an account that is enrolled from then on, or by `regenerate_codes`, which
leaves the enrollment as it is. -/
theorem Effect.replaced_nonce (h : Effect A db tx r db') {codes : List Str}
    (hrep : tx.Replaces uid codes r) {u : UserRow} (hu : db.user? uid = some u) :
    (db'.nonce? uid).isSome = true ∨
      (∃ c d, tx = .decide c .regenerateCodes d ∧ r = .outcome (.success (.codes codes)) ∧
        c.accountId = uid) ∧ db'.nonce? uid = db.nonce? uid := by
  obtain ⟨u', hu', hstep⟩ := h.row hu
  rw [Db.nonce?, Db.nonce?, hu, hu', Option.bind_some, Option.bind_some]
  cases hrep with
  | confirm hid =>
    left
    cases hstep with
    | same hne => exact absurd (congrArg some (hid.trans (Db.id_of_user? hu).symm)) hne
    | enrolled => rfl
  | regenerate hid =>
    right
    refine ⟨⟨_, _, rfl, rfl, hid⟩, ?_⟩
    cases hstep with
    | same hne => rfl
    | passed => rfl

theorem Event.codesEnrolled (hs : e.pre.step A e.label = some e.post)
    (hcond : e.RegeneratesEnrolled A)
    (hI : e.pre.db.CodesEnrolled uid) : e.post.db.CodesEnrolled uid := by
  rcases Event.commits_or_same hs with hsame | ⟨tx, r, hc⟩
  · rw [hsame]
    exact hI
  intro hsome hnone
  obtain ⟨u', hu'⟩ := Option.isSome_iff_exists.mp hsome
  obtain ⟨u, hu, -⟩ := hc.effect.row_back hu'
  -- the codes that are left are those of before, and so is the enrollment
  have hkept : tx.LeavesCodes uid r → e.pre.db.codes uid = [] := by
    intro hl
    apply hI (by rw [hu]; rfl)
    cases hc.effect.factor uid with
    | same _ hn | accepted _ _ hn => exact hn.symm.trans hnone
    | confirmed _ hn =>
      rw [hn] at hnone
      cases hnone
    | disabled hd => exact absurd hd hl.2
  cases hc.effect.codes uid with
  | same hl _ heq => rw [heq, hkept hl]
  | accepted hl _ _ heq => rw [heq, hkept hl, List.filter_nil]
  | disabled _ heq => exact heq
  | replaced hrep =>
    exfalso
    rcases hc.effect.replaced_nonce hrep hu with hsome | ⟨⟨c, d, rfl, rfl, hid⟩, hn⟩
    · rw [hnone] at hsome
      cases hsome
    · have henr := hcond c d _ hc
      rw [hid, ← hn, hnone] at henr
      cases henr

/-- If every account that `regenerate_codes` issues codes to is enrolled in the state before, then
in every state reached an account without a nonce has no recovery code, and every account has at
most ten. -/
theorem recovery_codes_only_enrolled (A : App) (w₀ w : World) (h : List Event) (hinit : w₀.Init)
    (H : World.Run A w₀ h w) (hcond : ∀ e ∈ h, e.RegeneratesEnrolled A) :
    (∀ u ∈ w.db.users, u.totpNonce = none → ∀ row ∈ w.db.recoveryCodes, row.userId ≠ u.id) ∧
      ∀ uid, (w.db.codes uid).length ≤ 10 := by
  refine ⟨fun u hu hn row hrow hid => ?_, fun uid => H.codes_le hinit⟩
  have hI : w.db.CodesEnrolled u.id := by
    apply H.stays (fun w => w.db.CodesEnrolled u.id)
    · intro _ _
      rw [Db.codes, hinit.recoveryCodes]
      rfl
    · rintro h₁ e h₂ rfl - hs hI
      exact Event.codesEnrolled hs (hcond e (by simp)) hI
  have hu' := Db.user?_of_mem hu
  have hnil := hI (by rw [hu']; rfl) (by rw [Db.nonce?, hu']; exact hn)
  have hmem : row ∈ w.db.codes u.id := Db.mem_codes.mpr ⟨hrow, hid⟩
  rw [hnil] at hmem
  cases hmem

/-! ## A regeneration that races the end of the enrollment -/

namespace Regeneration

def nonce : Bytes := [7]

def account : UserRow :=
  .sample 1 "m@kohaku.test".toList "the password".toList .maintainer (some nonce)

def start : World := .start ⟨[account], by decide⟩

theorem init : start.Init := World.init_start (by decide)

def tokenHash : Bytes := asBytes (tokenText App.sample.base64 (Draws.sample 1).token)

def csrf : Bytes := (Draws.sample 1).csrf.toList

/-- The enrolled account signs in and asks for new codes. -/
def request : List Label :=
  [.login 1 account.email "the password".toList "000000".toList none 0, .decide 1 (.sample 1),
    .current 2 tokenHash 60,
    .post 2 csrf (.regenerateCodes "the password".toList "000000".toList) none 60 (.sample 2)]

/-- The codes are regenerated at once. -/
def labels : List Label := request ++ [.decide 2 (.sample 2)]

def history : List Event := Lts.history (World.step App.sample) start labels

theorem run : World.Run App.sample start history (Lts.last start history) :=
  .of_history (by decide)

/-- Before the codes are regenerated, another request ends the enrollment. -/
def racedLabels : List Label :=
  request ++ [.current 3 tokenHash 61,
    .post 3 csrf (.disableTotp "the password".toList "000000".toList) none 61 (.sample 3),
    .decide 3 (.sample 3), .decide 2 (.sample 2)]

def raced : List Event := Lts.history (World.step App.sample) start racedLabels

theorem raced_run : World.Run App.sample start raced (Lts.last start raced) :=
  .of_history (by decide)

end Regeneration

/-- The accounts that a step finds regenerating are enrolled. -/
theorem Event.regeneratesEnrolled_of_all (hall : e.pre.requests.rows.all (fun q =>
    match q.stage with
    | .checking _ c _ => (e.pre.db.nonce? c.accountId).isSome
    | _ => true) = true) : e.RegeneratesEnrolled A := by
  intro c d codes hc
  have hf := hc.fires
  generalize e.label = l at hf
  cases hf with
  | decide hq => exact List.all_eq_true.mp hall _ hq

/-- Codes regenerated by an enrolled account: ten are stored. -/
theorem regenerated_codes_enrolled :
    (∀ e ∈ Regeneration.history, e.RegeneratesEnrolled App.sample) ∧
      ((Lts.last Regeneration.start Regeneration.history).db.codes 1).length = 10 ∧
      ∀ u ∈ (Lts.last Regeneration.start Regeneration.history).db.users, u.totpNonce = none →
        ∀ row ∈ (Lts.last Regeneration.start Regeneration.history).db.recoveryCodes,
          row.userId ≠ u.id := by
  have hall : ∀ e ∈ Regeneration.history, e.pre.requests.rows.all (fun q =>
      match q.stage with
      | .checking _ c _ => (e.pre.db.nonce? c.accountId).isSome
      | _ => true) = true := by decide
  have hcond : ∀ e ∈ Regeneration.history, e.RegeneratesEnrolled App.sample :=
    fun e he => Event.regeneratesEnrolled_of_all (hall e he)
  exact ⟨hcond, by decide, (recovery_codes_only_enrolled App.sample Regeneration.start _ _
    Regeneration.init Regeneration.run hcond).1⟩

/-- The raced regeneration stores ten codes of an account that is not enrolled. -/
theorem raced_regeneration_leaves_codes :
    Regeneration.start.Init ∧
      World.Run App.sample Regeneration.start Regeneration.raced
        (Lts.last Regeneration.start Regeneration.raced) ∧
      ((Lts.last Regeneration.start Regeneration.raced).db.user? 1).map (fun u => u.totpNonce) =
        some none ∧
      ((Lts.last Regeneration.start Regeneration.raced).db.codes 1).length = 10 :=
  ⟨Regeneration.init, Regeneration.raced_run, by decide, by decide⟩

end Kohaku
