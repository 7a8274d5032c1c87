import Kohaku.Server.Tables
import Kohaku.SignIn.LockColumns

/-!
# Strangers cannot lock the owner out

A run of checks is compared with the run in which every check without a known device that ended
in `Failure` is left out. `World.Matches` relates the states of the two runs: the databases differ
in the lock columns and the outbox, and the lock is never longer in the reduced run, in which
nothing counts toward it. Every check that is left is decided alike.
-/

namespace Kohaku

open Sql Credentials World

/-! ## Runs of checks -/

/-- The handlers that check the password again. -/
def Form.reauthenticates : Form → Bool
  | .password .. | .startTotp .. | .disableTotp .. | .regenerateCodes .. => true
  | _ => false

/-- The steps of checks: logins, the session layer, re-authenticated requests up to their check,
and deciding transactions. -/
def Label.ofChecks : Label → Bool
  | .login .. | .current .. | .touch .. | .decide .. | .finish .. => true
  | .post _ _ form _ _ _ => form.reauthenticates
  | _ => false

/-- The check of which the step is the read or the transaction. -/
def Label.check? : Label → Option Nat
  | .login rid .. | .post rid .. | .decide rid _ => some rid
  | _ => none

/-- The check without a known device that the step decides as a failure. -/
def Event.strangerFails (A : App) (e : Event) : Option Nat :=
  match e.label, (e.pre.plan A e.label).bind Plan.tx with
  | .decide rid _, some (.decide c work d) =>
    if !c.verified.knownDevice &&
        ((Tx.decide c work d).run A e.pre.db).map Prod.fst = some (.outcome .failure) then some rid
    else none
  | _, _ => none

/-- The checks without a known device that ended in a failure. -/
def strangers (A : App) (h : List Event) : List Nat := h.filterMap (Event.strangerFails A)

/-- The steps of the other checks. -/
def withoutStrangers (A : App) (h : List Event) : List Event :=
  h.filter fun e => !(e.label.check?.any fun rid => (strangers A h).contains rid)

/-- The database without the lock columns and the outbox. -/
def Db.view (db : Db) : Db :=
  { db with
    users := db.users.update (fun _ => true)
      fun u => { u with failedLogins := 0, lockedUntil := none, lockoutMailedAt := none }
    outbox := .empty }

/-- What a deciding transaction shows: its outcome, the database it leaves and, after a success,
the counters of the account. -/
structure Seen where
  rid : Nat
  result : Option Result
  view : Db
  counters : Option (Int × Int × Option Time)

/-- What a step shows that decides a check. -/
def Event.seen (A : App) (e : Event) : Option Seen :=
  match e.label, (e.pre.plan A e.label).bind Plan.tx with
  | .decide rid _, some (.decide c work d) =>
    let result := ((Tx.decide c work d).run A e.pre.db).map Prod.fst
    some ⟨rid, result, e.post.db.view,
      match result with
      | some (.outcome (.success _)) => (e.post.db.user? c.accountId).map fun u =>
          (u.failedLogins, u.deviceFailures, u.deviceWindowStart)
      | _ => none⟩
  | _, _ => none

variable {A : App} {w₀ w w' : World} {h : List Event} {rid : Nat} {D : List Nat}

theorem Db.LockRel.view {db db' : Db} (h : db.LockRel db') : db'.view = db.view := by
  obtain ⟨us, ob, rfl, hu⟩ := h
  have hrows : List.Forall₂ (· = ·) (db.users.update (fun _ => true) (fun u =>
        { u with failedLogins := 0, lockedUntil := none, lockoutMailedAt := none })).rows
      (us.update (fun _ => true) (fun u =>
        { u with failedLogins := 0, lockedUntil := none, lockoutMailedAt := none })).rows := by
    refine List.rel_map ?_ hu
    rintro u _ ⟨_, _, _, rfl, -⟩
    rfl
  rw [List.forall₂_eq_eq_eq] at hrows
  unfold Db.view
  congr 1
  exact Table.ext hrows.symm

/-! ## A request is answered once -/

/-- A request that was answered does not come back. -/
theorem Event.gone {e : Event} (hs : e.pre.step A e.label = some e.post)
    (hseq : rid ≤ e.pre.requests.seq) (hgone : ∀ q ∈ e.pre.requests, q.rid ≠ rid) :
    ∀ q ∈ e.post.requests, q.rid ≠ rid := by
  intro q hq hrid
  rcases Event.enters hs hq with hq | he
  · exact hgone q hq hrid
  · generalize e.label = l at he
    cases he with
    | login hlt | touching hlt | current hlt | linking hlt => exact absurd (hrid ▸ hlt) hseq.not_gt
    | touched hm | reauth hm => exact hgone _ hm hrid

/-- A deciding step answers the request, whatever its transaction does. -/
theorem Event.gone_of_decide {e : Event} {d : Draws} (hs : e.pre.step A e.label = some e.post)
    (hl : e.label = .decide rid d) :
    (∃ s c work, ⟨rid, .checking s c work⟩ ∈ e.pre.requests ∧
      e.pre.plan A e.label = some (e.pre.answer rid (some (.decide c work d)))) ∧
      ∀ q ∈ e.post.requests, q.rid ≠ rid := by
  obtain ⟨p, hp, hreq⟩ := exists_plan hs
  rw [hp, hreq]
  rw [hl] at hp
  simp only [World.plan] at hp
  split at hp
  · rename_i s c work hst
    cases hp
    exact ⟨⟨s, c, work, World.mem_of_stage? hst, rfl⟩, fun q hq => (World.mem_answer.mp hq).2⟩
  · cases hp

/-- No second step decides the same check. -/
theorem World.Run.decide_last {h₁ h₂ : List Event} {e : Event} {d : Draws}
    (H : World.Run A w₀ (h₁ ++ e :: h₂) w) (hl : e.label = .decide rid d) :
    ∀ e' ∈ h₂, ∀ d', e'.label ≠ .decide rid d' := by
  obtain ⟨-, hs, H₂⟩ := H.split
  obtain ⟨⟨s, c, work, hq, -⟩, hgone⟩ := Event.gone_of_decide hs hl
  have hseq : rid ≤ e.post.requests.seq := (AutoTable.id_le_seq hq).trans (Event.seq_le hs)
  intro e' he' d' hl'
  obtain ⟨h₃, h₄, rfl, H₃, hs', -⟩ := H₂.of_mem he'
  have hinv := H₃.invariant (fun w => rid ≤ w.requests.seq ∧ ∀ q ∈ w.requests, q.rid ≠ rid)
    ⟨hseq, hgone⟩ (fun {t l u} hI hs => ⟨hI.1.trans (Event.seq_le (e := ⟨t, l, u⟩) hs),
      Event.gone (e := ⟨t, l, u⟩) hs hI.1 hI.2⟩)
  obtain ⟨⟨s', c', work', hq', -⟩, -⟩ := Event.gone_of_decide hs' hl'
  exact hinv.2 _ hq' rfl

theorem World.Run.decide_once {e e' : Event} {d d' : Draws} (H : World.Run A w₀ h w)
    (he : e ∈ h) (he' : e' ∈ h) (hl : e.label = .decide rid d) (hl' : e'.label = .decide rid d') :
    e = e' := by
  obtain ⟨h₁, h₂, rfl⟩ := List.append_of_mem he
  rcases List.mem_append.mp he' with h' | h'
  · obtain ⟨h₃, h₄, rfl⟩ := List.append_of_mem h'
    rw [List.append_assoc, List.cons_append] at H
    exact absurd hl (H.decide_last hl' e (by simp) d)
  · rcases List.mem_cons.mp h' with rfl | h'
    · rfl
    · exact absurd hl' (H.decide_last hl e' h' d')

/-! ## The states of the two runs -/

/-- The stages are the same but for what a check has read of the lock. -/
inductive Stage.LockRel : Stage → Stage → Prop
  | refl : Stage.LockRel st st
  | checking : c.verified.LockRel v →
    Stage.LockRel (.checking s c work) (.checking s { c with verified := v } work)

/-- Every request of the first run is in the second at a related stage, but for the checks of `D`
that were read. -/
structure RequestsMatch (D : List Nat) (t t' : AutoTable Request Request.rid) : Prop where
  seq : t'.seq ≤ t.seq
  request : ∀ q ∈ t, (q.rid ∈ D ∧ ∃ s c work, q.stage = .checking s c work) ∨
    ∃ st, ⟨q.rid, st⟩ ∈ t' ∧ q.stage.LockRel st

/-- The states of the two runs: the same but for the lock columns, the mails and the checks of `D`.
-/
structure World.Matches (D : List Nat) (w w' : World) : Prop where
  db : w.db.LockRel w'.db
  requests : RequestsMatch D w.requests w'.requests

theorem World.Matches.refl (w : World) : Matches D w w :=
  ⟨.refl _, le_rfl, fun q hq => .inr ⟨q.stage, hq, .refl⟩⟩

/-- A request that is not yet checking is at the same stage in both. -/
theorem RequestsMatch.stage {t t' : AutoTable Request Request.rid} {st : Stage}
    (h : RequestsMatch D t t') (hq : ⟨rid, st⟩ ∈ t) (hst : ∀ s c work, st ≠ .checking s c work) :
    ⟨rid, st⟩ ∈ t' := by
  rcases h.request _ hq with ⟨-, s, c, work, heq⟩ | ⟨st', hq', hrel⟩
  · exact absurd heq (hst s c work)
  · cases hrel with
    | refl => exact hq'
    | checking => exact absurd rfl (hst _ _ _)

theorem RequestsMatch.arrive {stage stage' : Option Stage} {p : Plan}
    (h : RequestsMatch D w.requests w'.requests) (hst : Option.Rel Stage.LockRel stage stage')
    (hp : w.arrive rid stage = some p) :
    ∃ p', w'.arrive rid stage' = some p' ∧ p.tx = none ∧ p'.tx = none ∧
      RequestsMatch D p.requests p'.requests := by
  obtain ⟨htx, hlt, hseq, hmem⟩ := arrive_eq_some hp
  obtain ⟨p', hp'⟩ : ∃ p', w'.arrive rid stage' = some p' := by
    unfold World.arrive
    rw [dif_pos (h.seq.trans_lt hlt)]
    cases stage' <;> exact ⟨_, rfl⟩
  obtain ⟨htx', -, hseq', hmem'⟩ := arrive_eq_some hp'
  refine ⟨p', hp', htx, htx', by rw [hseq, hseq'], fun q hq => ?_⟩
  rcases (hmem q).mp hq with hq | ⟨st, rfl, rfl⟩
  · refine (h.request q hq).imp_right ?_
    rintro ⟨st, hm, hrel⟩
    exact ⟨st, (hmem' _).mpr (.inl hm), hrel⟩
  · cases hst with
    | some hrel => exact .inr ⟨_, (hmem' _).mpr (.inr ⟨_, rfl, rfl⟩), hrel⟩

theorem RequestsMatch.answer {tx tx' : Option Tx} (h : RequestsMatch D w.requests w'.requests) :
    RequestsMatch D (w.answer rid tx).requests (w'.answer rid tx').requests := by
  refine ⟨h.seq, fun q hq => ?_⟩
  obtain ⟨hq, hne⟩ := mem_answer.mp hq
  refine (h.request q hq).imp_right ?_
  rintro ⟨st, hm, hrel⟩
  exact ⟨st, mem_answer.mpr ⟨hm, hne⟩, hrel⟩

theorem RequestsMatch.advance {st st' st₀ : Stage} {tx tx' : Option Tx}
    (h : RequestsMatch D w.requests w'.requests) (hq₀ : ⟨rid, st₀⟩ ∈ w'.requests)
    (hst : st.LockRel st') :
    RequestsMatch D (w.advance rid st tx).requests (w'.advance rid st' tx').requests := by
  refine ⟨h.seq, fun q hq => ?_⟩
  rcases mem_advance hq with ⟨hq, hne⟩ | rfl
  · refine (h.request q hq).imp_right ?_
    rintro ⟨st, hm, hrel⟩
    exact ⟨st, mem_advance_of_ne hm hne, hrel⟩
  · exact .inr ⟨st', mem_advance_self hq₀, hst⟩

/-! ## A step of the reduced run -/

/-- The transactions of the two runs: none, the same record of use, or the same check. -/
inductive TxMatch : Option Tx → Option Tx → Prop
  | none : TxMatch none none
  | touch : TxMatch (some (.touch sid now)) (some (.touch sid now))
  | decide : TxMatch (some (.decide c work d)) (some (.decide c work d))

theorem reauth_matches {s : Signed} {password text : Str} {device : Option Bytes} {now : Time}
    {work : Work} (h : Matches D w w') (hq : ⟨rid, .handler s⟩ ∈ w'.requests) :
    (w.reauth A rid s password text device now work).tx = none ∧
      (w'.reauth A rid s password text device now work).tx = none ∧
      RequestsMatch D (w.reauth A rid s password text device now work).requests
        (w'.reauth A rid s password text device now work).requests := by
  have hread := h.db.checkRead (A := A) ⟨.id s.user.userId, password, text, device⟩ now
  unfold World.reauth
  dsimp only
  generalize checkRead A w.db _ now = x at hread
  generalize checkRead A w'.db _ now = y at hread
  cases hread with
  | none => exact ⟨rfl, rfl, h.requests.answer⟩
  | @some x y hxy =>
    obtain ⟨uid, v⟩ := x
    obtain ⟨uid', v'⟩ := y
    obtain ⟨rfl, hv⟩ := hxy
    exact ⟨rfl, rfl, h.requests.advance hq (.checking hv)⟩

/-- A re-authenticated handler is answered or checks the password, by its form alone. -/
theorem handle_reauthenticates (A : App) (rid : Nat) (s : Signed) (device : Option Bytes)
    (now : Time) (d : Draws) {form : Form} (hf : form.reauthenticates = true) :
    (∀ w : World, w.handle A rid s device now d form = w.answer rid none) ∨
      ∃ password text work, ∀ w : World, w.handle A rid s device now d form =
        w.reauth A rid s password text device now work := by
  cases form with
  | password current text new again salt =>
    simp only [World.handle]
    split
    · exact .inl fun _ => rfl
    · split
      · exact .inl fun _ => rfl
      · exact .inr ⟨_, _, _, fun _ => rfl⟩
  | startTotp current text => exact .inr ⟨_, _, _, fun _ => rfl⟩
  | disableTotp current text | regenerateCodes current text =>
    simp only [World.handle]
    split
    · exact .inl fun _ => rfl
    · exact .inr ⟨_, _, _, fun _ => rfl⟩
  | logout | confirmTotp | endOthers => cases hf

/-- A check whose password the lock kept from being tried ends in a failure. -/
theorem decide_of_no_hash (A : App) (db : Db) {c : Checking} (work : Work) (d : Draws)
    (hv : c.verified.hash = none) :
    ∃ db', (Tx.decide c work d).run A db = some (.outcome .failure, db') := by
  simp only [Tx.run]
  cases hu : db.user? c.accountId with
  | none =>
    rw [decide_unknown hu]
    exact ⟨_, rfl⟩
  | some u =>
    cases hb : u.blocked c.verified.knownDevice c.now with
    | true =>
      rw [decide_blocked hu hb]
      exact ⟨_, rfl⟩
    | false =>
      rw [decide_unblocked hu hb, if_pos (by simp [passwordOk, hv])]
      exact ⟨_, rfl⟩

/-- The transaction is not the failure of a check without a known device. -/
def Tx.NotStranger (A : App) (db : Db) (tx : Tx) : Prop :=
  ∀ c work d, tx = .decide c work d → c.verified.knownDevice = false →
    ∀ db', tx.run A db ≠ some (.outcome .failure, db')

/-- A step of a check that is kept can be done in the reduced run, with the same transaction. -/
theorem plan_matches {l : Label} {p : Plan} (h : Matches D w w') (hl : l.ofChecks = true)
    (hp : w.plan A l = some p) (hD : ∀ rid, l.check? = some rid → rid ∉ D)
    (hns : ∀ tx, p.tx = some tx → tx.NotStranger A w.db) :
    ∃ p', w'.plan A l = some p' ∧ TxMatch p.tx p'.tx ∧ RequestsMatch D p.requests p'.requests := by
  cases l with
  | login rid email password text device now =>
    have hread :=
      h.db.checkRead (A := A) ⟨.email (normalizeEmail email), password, text, device⟩ now
    have hst : Option.Rel Stage.LockRel
        ((checkRead A w.db ⟨.email (normalizeEmail email), password, text, device⟩ now).map
          fun x => Stage.checking none
            ⟨⟨.email (normalizeEmail email), password, text, device⟩, now, x.1, x.2⟩
              (.login device))
        ((checkRead A w'.db ⟨.email (normalizeEmail email), password, text, device⟩ now).map
          fun x => Stage.checking none
            ⟨⟨.email (normalizeEmail email), password, text, device⟩, now, x.1, x.2⟩
            (.login device)) := by
      generalize checkRead A w.db _ now = x at hread
      generalize checkRead A w'.db _ now = y at hread
      cases hread with
      | none => exact .none
      | @some x y hxy =>
        obtain ⟨uid, v⟩ := x
        obtain ⟨uid', v'⟩ := y
        obtain ⟨rfl, hv⟩ := hxy
        exact .some (.checking hv)
    obtain ⟨p', hp', htx, htx', hreq⟩ := h.requests.arrive hst hp
    exact ⟨p', hp', by rw [htx, htx']; exact .none, hreq⟩
  | current rid tokenHash now =>
    have hst : ∀ x : Option Stage, Option.Rel Stage.LockRel x x := by
      intro x
      cases x with
      | none => exact .none
      | some st => exact .some .refl
    obtain ⟨p', hp', htx, htx', hreq⟩ := h.requests.arrive (hst _) hp
    refine ⟨p', ?_, by rw [htx, htx']; exact .none, hreq⟩
    rw [← hp']
    simp only [World.plan, h.db.currentRead]
  | touch rid =>
    simp only [World.plan] at hp
    split at hp
    · rename_i s now hst
      cases hp
      have hq := h.requests.stage (mem_of_stage? hst) (by simp)
      refine ⟨w'.advance rid (.handler s) (some (.touch s.user.sessionId now)), ?_, .touch,
        h.requests.advance hq .refl⟩
      simp only [World.plan, stage?_of_mem hq]
    · cases hp
  | post rid csrf form device now d =>
    simp only [World.plan] at hp
    split at hp
    · rename_i s hst
      have hq := h.requests.stage (mem_of_stage? hst) (by simp)
      split at hp
      · rename_i hcsrf
        cases hp
        refine ⟨w'.handle A rid s device now d form, ?_, ?_⟩
        · simp only [World.plan, stage?_of_mem hq, if_pos hcsrf]
        rcases handle_reauthenticates A rid s device now d hl with hans
          | ⟨password, text, work, hre⟩
        · rw [hans, hans]
          exact ⟨.none, h.requests.answer⟩
        · rw [hre, hre]
          obtain ⟨htx, htx', hreq⟩ := reauth_matches (A := A) h hq
          exact ⟨by rw [htx, htx']; exact .none, hreq⟩
      · rename_i hcsrf
        cases hp
        refine ⟨w'.answer rid none, ?_, .none, h.requests.answer⟩
        simp only [World.plan, stage?_of_mem hq, if_neg hcsrf]
    · cases hp
  | decide rid d =>
    simp only [World.plan] at hp
    split at hp
    · rename_i s c work hst
      cases hp
      have hnot := hns _ rfl
      obtain ⟨st', hq', hrel⟩ : ∃ st', ⟨rid, st'⟩ ∈ w'.requests ∧
          Stage.LockRel (.checking s c work) st' := by
        rcases h.requests.request _ (mem_of_stage? hst) with ⟨hmem, -⟩ | hrel
        · exact absurd hmem (hD rid rfl)
        · exact hrel
      -- a check that lost its hash to the lock would fail here
      have hst' : st' = .checking s c work := by
        cases hrel with
        | refl => rfl
        | checking hv =>
          rcases hv with rfl | ⟨hk, hnone, -⟩
          · rfl
          · obtain ⟨db', hrun⟩ := decide_of_no_hash A w.db work d hnone
            exact absurd hrun (hnot _ _ _ rfl hk db')
      subst hst'
      refine ⟨w'.answer rid (some (.decide c work d)), ?_, .decide, h.requests.answer⟩
      simp only [World.plan, stage?_of_mem hq']
    · cases hp
  | finish rid =>
    cases hp
    exact ⟨_, rfl, .none, h.requests.answer⟩
  | _ => cases hl

/-- Matching transactions return the same and leave related databases. -/
theorem TxMatch.run {db db' : Db} {x y : Option Tx} (h : TxMatch x y) (hdb : db.LockRel db')
    (hns : ∀ tx, x = some tx → tx.NotStranger A db) :
    Db.LockRelOpt (x.bind fun tx => tx.run A db) (y.bind fun tx => tx.run A db') := by
  cases h with
  | none => exact .none
  | touch => exact .some ⟨rfl, hdb.touch ..⟩
  | @decide c work d =>
    have hrun := hdb.decide (A := A) c.accountId c.verified c.now work d (by
      intro hk db₁ hfail
      refine hns _ rfl c work d rfl hk db₁ ?_
      simp only [Tx.run, hfail]
      rfl)
    simp only [Option.bind_some, Tx.run]
    generalize Credentials.decide A db _ _ _ _ = x at hrun
    generalize Credentials.decide A db' _ _ _ _ = y at hrun
    cases hrun with
    | none => exact .none
    | some hab => exact .some ⟨congrArg Result.outcome hab.1, hab.2⟩

theorem after_matches {l : Label} {p p' : Plan} (hdb : w.db.LockRel w'.db)
    (htx : Db.LockRelOpt (p.tx.bind fun tx => tx.run A w.db) (p'.tx.bind fun tx => tx.run A w'.db))
    (hreq : RequestsMatch D p.requests p'.requests) :
    Matches D (w.after A l p) (w'.after A l p') := by
  unfold World.after
  generalize (p.tx.bind fun tx => tx.run A w.db) = x at htx
  generalize (p'.tx.bind fun tx => tx.run A w'.db) = y at htx
  cases htx with
  | none => exact ⟨hdb, hreq⟩
  | some hab => exact ⟨hab.2, hreq⟩

/-- A success leaves the counters at zero. -/
theorem Effect.counters_of_success {db db' : Db} {c : Checking} {work : Work} {d : Draws}
    {value : Value} (h : Effect A db (.decide c work d) (.outcome (.success value)) db') :
    (db'.user? c.accountId).map (fun u => (u.failedLogins, u.deviceFailures, u.deviceWindowStart)) =
      some (0, 0, none) := by
  obtain ⟨u, db₁, hp⟩ := h.passed
  obtain ⟨u', hu', hstep⟩ := h.row hp.user
  rw [hu', Option.map_some]
  cases hstep with
  | same hne => exact absurd (congrArg some (Db.id_of_user? hp.user).symm) hne
  | passed => cases work <;> rfl

/-! ## The two runs -/

theorem Event.strangerFails_eq_some {e : Event} (h : e.strangerFails A = some rid) :
    ∃ d c work d', e.label = .decide rid d ∧
      (e.pre.plan A e.label).bind Plan.tx = some (.decide c work d') ∧
      c.verified.knownDevice = false ∧
      ((Tx.decide c work d').run A e.pre.db).map Prod.fst = some (.outcome .failure) := by
  unfold Event.strangerFails at h
  split at h
  · rename_i d c work d' hl hp
    split at h
    · rename_i hc
      cases h
      simp only [Bool.and_eq_true, Bool.not_eq_true', decide_eq_true_eq] at hc
      exact ⟨d, c, work, d', hl, hp, hc.1, hc.2⟩
    · cases h
  · cases h

/-- A kept step does not decide a check without a known device as a failure. -/
theorem Event.notStranger {e : Event} {p : Plan} {tx : Tx} (hp : e.pre.plan A e.label = some p)
    (htx : p.tx = some tx) (hkeep : ∀ rid, e.label.check? = some rid →
      e.strangerFails A ≠ some rid) :
    tx.NotStranger A e.pre.db := by
  rintro c work d rfl hk db' hrun
  have hf := plan_fires hp htx
  generalize hl : e.label = l at hf
  cases hf with
  | @decide rid =>
    refine hkeep rid (by rw [hl]; rfl) ?_
    simp only [Event.strangerFails, hl] at hp ⊢
    simp [hp, htx, hk, hrun]

/-- What a deciding step shows, from its result and the view it leaves. -/
theorem Event.seen_of_decide {e : Event} {d d' : Draws} {c : Checking} {work : Work}
    (hs : e.pre.step A e.label = some e.post) (hl : e.label = .decide rid d)
    (hp : (e.pre.plan A e.label).bind Plan.tx = some (.decide c work d')) :
    e.seen A = some ⟨rid, ((Tx.decide c work d').run A e.pre.db).map Prod.fst, e.post.db.view,
      match ((Tx.decide c work d').run A e.pre.db).map Prod.fst with
      | some (.outcome (.success _)) => some (0, 0, none)
      | _ => none⟩ := by
  have hcount : ∀ value, ((Tx.decide c work d').run A e.pre.db).map Prod.fst =
      some (.outcome (.success value)) →
      (e.post.db.user? c.accountId).map
        (fun u => (u.failedLogins, u.deviceFailures, u.deviceWindowStart)) = some (0, 0, none) :=
    fun value hr => (Event.commits_of_eval hs hp hr).effect.counters_of_success
  rw [hl] at hp
  simp only [Event.seen, hl, hp]
  congr 2
  split
  · rename_i value hr
    exact hcount value hr
  · rfl

/-- A step that is left out keeps the two runs matched. -/
theorem World.Run.drop {e : Event} {m' : World} (H : World.Run A w₀ h w) (he : e ∈ h)
    (hl : e.label.ofChecks = true) (hs : e.pre.step A e.label = some e.post)
    (hrid : e.label.check? = some rid) (hD : rid ∈ strangers A h)
    (hI : Matches (strangers A h) e.pre m') : Matches (strangers A h) e.post m' := by
  refine ⟨?_, hI.requests.seq.trans (Event.seq_le hs), fun q hq => ?_⟩
  · rcases Event.commits_or_same hs with hsame | ⟨tx, r, hc⟩
    · rw [hsame]
      exact hI.db
    have hf := hc.fires
    generalize hlab : e.label = l at hf hl hrid
    cases hf with
    | logout | confirmTotp | endOtherSessions => cases hl
    | @decide _ _ c work d hq =>
      cases hrid
      -- the check is decided here and nowhere else, so here it fails
      obtain ⟨e₀, he₀, hfail⟩ := List.mem_filterMap.mp hD
      obtain ⟨d₀, c₀, work₀, d₁, hl₀, hp₀, hk₀, hr₀⟩ := Event.strangerFails_eq_some hfail
      obtain rfl := H.decide_once he he₀ hlab hl₀
      obtain ⟨p, hp, htx, hrun⟩ := hc
      rw [hp, Option.bind_some, htx] at hp₀
      cases hp₀
      rw [hrun, Option.map_some, Option.some.injEq] at hr₀
      subst hr₀
      have heff := Tx.run_effect hrun
      generalize e.post.db = db' at heff
      cases heff with
      | refused => exact hI.db
      | failed hu hb =>
        rw [hk₀] at hb ⊢
        exact hI.db.afterFailure_left (Db.id_of_user? hu ▸ hu) hb
    | touch => cases hrid
    | _ => cases hl
  · rcases Event.enters hs hq with hq | hent
    · exact hI.requests.request q hq
    · generalize e.label = l at hent hrid
      cases hent with
      | login | reauth =>
        cases hrid
        exact .inl ⟨hD, _, _, _, rfl⟩
      | touching | current | touched => cases hrid
      | linking => cases hrid

/-- A step that is kept is done in the reduced run too, and shows the same. -/
theorem World.Run.keep {e : Event} {m' : World} (he : e ∈ h) (hl : e.label.ofChecks = true)
    (hs : e.pre.step A e.label = some e.post)
    (hkeep : ∀ rid, e.label.check? = some rid → rid ∉ strangers A h)
    (hI : Matches (strangers A h) e.pre m') :
    ∃ u', m'.step A e.label = some u' ∧ Matches (strangers A h) e.post u' ∧
      Event.seen A ⟨m', e.label, u'⟩ = e.seen A := by
  obtain ⟨p, hp, hafter⟩ := Option.map_eq_some_iff.mp hs
  have hns : ∀ tx, p.tx = some tx → tx.NotStranger A e.pre.db := fun tx htx =>
    Event.notStranger hp htx fun rid hr hf =>
      hkeep rid hr (List.mem_filterMap.mpr ⟨e, he, hf⟩)
  obtain ⟨p', hp', htx, hreq⟩ := plan_matches hI hl hp hkeep hns
  have hrun := htx.run hI.db hns
  have hM : Matches (strangers A h) e.post (m'.after A e.label p') :=
    hafter ▸ after_matches hI.db hrun hreq
  have hs' : m'.step A e.label = some (m'.after A e.label p') := by
    simp only [World.step, hp', Option.map_some]
  refine ⟨_, hs', hM, ?_⟩
  have hb : (e.pre.plan A e.label).bind Plan.tx = p.tx := by rw [hp, Option.bind_some]
  have hb' : (m'.plan A e.label).bind Plan.tx = p'.tx := by rw [hp', Option.bind_some]
  generalize hx : p.tx = x at htx hrun hb
  generalize hy : p'.tx = y at htx hrun hb'
  cases htx with
  | none | touch =>
    simp only [Event.seen, hb, hb']
    cases e.label <;> rfl
  | @decide c work d =>
    have hf := plan_fires hp hx
    generalize hlab : e.label = l at hf
    cases hf with
    | decide =>
      have hres : ((Tx.decide c work d).run A e.pre.db).map Prod.fst =
          ((Tx.decide c work d).run A m'.db).map Prod.fst := by
        simp only [Option.bind_some] at hrun
        generalize (Tx.decide c work d).run A e.pre.db = x at hrun ⊢
        generalize (Tx.decide c work d).run A m'.db = y at hrun ⊢
        cases hrun with
        | none => rfl
        | some hab => exact congrArg some hab.1
      rw [Event.seen_of_decide hs hlab hb, ← hlab,
        Event.seen_of_decide (e := ⟨m', e.label, m'.after A e.label p'⟩) hs' hlab hb']
      simp only [hres, hM.db.view]

/-! ## What a failure changes -/

/-- A check that did not end in success changed at most the account's five counter columns and
queued at most one lockout mail. -/
structure FailureFrame (A : App) (c : Checking) (db db' : Db) : Prop where
  users : ∀ i u, db.user? i = some u → ∃ u', db'.user? i = some u' ∧ (i ≠ c.accountId → u' = u) ∧
    u' = { u with
      failedLogins := u'.failedLogins, lockedUntil := u'.lockedUntil
      lockoutMailedAt := u'.lockoutMailedAt, deviceFailures := u'.deviceFailures
      deviceWindowStart := u'.deviceWindowStart }
  nobody : ∀ i, db.user? i = none → db'.user? i = none
  sessions : db'.sessions = db.sessions
  knownDevices : db'.knownDevices = db.knownDevices
  recoveryCodes : db'.recoveryCodes = db.recoveryCodes
  tokens : db'.tokens = db.tokens
  auditLog : db'.auditLog = db.auditLog
  outbox : db'.outbox = db.outbox ∨
    db'.outbox = db.outbox.insertNew
      ((lockoutMail A c.accountId c.now).row c.now (some c.accountId) none)

theorem Effect.failureFrame {db db' : Db} {c : Checking} {work : Work} {d : Draws}
    {o : Outcome Value} (h : Effect A db (.decide c work d) (.outcome o) db')
    (ho : ∀ value, o ≠ .success value) : FailureFrame A c db db' := by
  have husers : ∀ i u, db.user? i = some u → ∃ u', db'.user? i = some u' ∧
      (i ≠ c.accountId → u' = u) ∧ u' = { u with
        failedLogins := u'.failedLogins, lockedUntil := u'.lockedUntil
        lockoutMailedAt := u'.lockoutMailedAt, deviceFailures := u'.deviceFailures
        deviceWindowStart := u'.deviceWindowStart } := by
    intro i u hu
    obtain ⟨u', hu', hstep⟩ := h.row hu
    refine ⟨u', hu', ?_⟩
    cases hstep with
    | same => exact ⟨fun _ => rfl, rfl⟩
    | counted hid =>
      refine ⟨fun hne => absurd ((hid.trans (Db.id_of_user? hu)).symm) hne, ?_⟩
      simp only [counted, countDevice, countLogin]
      split <;> split <;> rfl
    | passed => exact absurd rfl (ho _)
  have hnobody := fun i hi => h.user?_none (i := i) hi
  cases h with
  | refused => exact ⟨husers, hnobody, rfl, rfl, rfl, rfl, rfl, .inl rfl⟩
  | @failed u _ _ _ hu hb =>
    refine ⟨husers, hnobody, rfl, rfl, rfl, rfl, rfl, ?_⟩
    rw [← Db.id_of_user? hu]
    simp only [afterFailure]
    split
    · exact .inr rfl
    · exact .inl rfl
  | login | changePassword | startTotp | disableTotp | regenerateCodes => exact absurd rfl (ho _)

/-- Only the session layer's record of use and deciding transactions write in a run of checks. -/
theorem Event.same_of_ofChecks {e : Event} (hs : e.pre.step A e.label = some e.post)
    (hl : e.label.ofChecks = true) (ht : ∀ rid, e.label ≠ .touch rid)
    (hd : ∀ rid d, e.label ≠ .decide rid d) : e.post.db = e.pre.db := by
  rcases Event.commits_or_same hs with hsame | ⟨tx, r, hc⟩
  · exact hsame
  · have hf := hc.fires
    generalize e.label = l at hf hl ht hd
    cases hf with
    | touch => exact absurd rfl (ht _)
    | decide => exact absurd rfl (hd _ _)
    | _ => cases hl

/-- Strangers cannot lock the owner out. Leave out of a run of checks those without a known device
that ended in a failure: what is left is a run in which every check has the same outcome and
leaves the same password hashes, second factors, sessions, devices and device windows. And a
check that does not end in success changes nothing else than the counters. -/
theorem strangers_cannot_lock_out (A : App) (w₀ w : World) (h : List Event)
    (H : World.Run A w₀ h w) (hl : ∀ e ∈ h, e.label.ofChecks = true) :
    (∃ h' w', World.Run A w₀ h' w' ∧
      h'.map Lts.Step.label = (withoutStrangers A h).map Lts.Step.label ∧
      h'.map (Event.seen A) = (withoutStrangers A h).map (Event.seen A) ∧
      w'.db.view = w.db.view) ∧
    (∀ e ∈ h, ∀ c work d o, e.Commits A (.decide c work d) (.outcome o) →
      (∀ value, o ≠ .success value) → FailureFrame A c e.pre.db e.post.db) ∧
    (∀ e ∈ h, (∀ rid, e.label ≠ .touch rid) → (∀ rid d, e.label ≠ .decide rid d) →
      e.post.db = e.pre.db) := by
  refine ⟨?_, fun e _ c work d o hc ho => hc.effect.failureFrame ho,
    fun e he ht hd => Event.same_of_ofChecks (H.step_of_mem he) (hl e he) ht hd⟩
  obtain ⟨h', w', H', hlab, hobs, hM⟩ := H.reduce
    (fun e => !(e.label.check?.any fun rid => (strangers A h).contains rid))
    (Matches (strangers A h)) (Event.seen A) (Matches.refl w₀)
    (fun {e m'} he hs hdrop hI => by
      simp only [Bool.not_eq_false', Option.any_eq_true, List.contains_iff_mem] at hdrop
      obtain ⟨rid, hrid, hD⟩ := hdrop
      exact H.drop he (hl e he) hs hrid hD hI)
    (fun {e m'} he hs hkeep hI => by
      refine World.Run.keep he (hl e he) hs (fun rid hrid hD => ?_) hI
      simp [hrid, hD] at hkeep)
  exact ⟨h', w', H', hlab, hobs, hM.db.view⟩

namespace Owner

def account : UserRow := .sample 1 "m@kohaku.test".toList "the password".toList .maintainer none

def start : World := .start ⟨[account], by decide⟩

/-- The hash of the device cookie that the owner's first login sets. -/
def device : Bytes := asBytes (tokenText App.sample.base64 (Draws.sample 1).device)

/-- The owner signs in, strangers lock the account, and the owner signs in again. -/
def labels : List Label :=
  [.login 1 account.email "the password".toList [] none 0, .decide 1 (.sample 1)] ++
  (List.range 12).flatMap (fun i =>
    [.login (i + 2) account.email "a guess".toList [] none 20, .decide (i + 2) (.sample 2)]) ++
  [.login 20 account.email "the password".toList [] (some device) 30, .decide 20 (.sample 3)]

def history : List Event := Lts.history (World.step App.sample) start labels

theorem run : World.Run App.sample start history (Lts.last start history) :=
  .of_history (by decide)

end Owner

/-- The twelve guesses are left out; the two logins of the owner show the same without them. -/
theorem owner_not_locked_out :
    (∀ e ∈ Owner.history, e.label.ofChecks = true) ∧
      (strangers App.sample Owner.history).length = 12 ∧
      (withoutStrangers App.sample Owner.history).length = 4 ∧
      ∃ h' w', World.Run App.sample Owner.start h' w' ∧
        h'.map (Event.seen App.sample) =
          (withoutStrangers App.sample Owner.history).map (Event.seen App.sample) ∧
        w'.db.view = (Lts.last Owner.start Owner.history).db.view := by
  have hl : ∀ e ∈ Owner.history, e.label.ofChecks = true := by decide
  obtain ⟨h', w', H', -, hseen, hview⟩ :=
    (strangers_cannot_lock_out App.sample Owner.start _ _ Owner.run hl).1
  exact ⟨hl, by decide, by decide, h', w', H', hseen, hview⟩

end Kohaku
