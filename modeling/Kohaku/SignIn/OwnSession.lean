import Kohaku.Server.Tables

/-!
# A request acts on its own session

The session layer reads the session of the presented token and hands its row id to the handler,
whose transaction addresses the row by that id. `sessions.id` is given as the largest id plus one,
so the id of a session that ended can be given to the next login while a request still holds it
(`logout_ends_other_session`). As long as no login that succeeds takes an id that is held, the row
with that id is the row of the token.
-/

namespace Kohaku

open Sql Credentials

/-- What the session layer read for a request. -/
def Stage.signed? : Stage → Option Signed
  | .touching s _ | .handler s => some s
  | .checking s _ _ => s
  | .linking .. => none

/-- The request whose transaction a step runs. -/
def Label.request? : Label → Option Nat
  | .touch rid | .post rid .. | .decide rid _ | .linkSubmit rid _ => some rid
  | _ => none

/-- The step commits `tx` for a request that the session layer let in as `s`. -/
def Event.Handles (A : App) (e : Event) (s : Signed) (tx : Tx) (r : Result) : Prop :=
  e.Commits A tx r ∧ ∃ rid st, e.label.request? = some rid ∧ ⟨rid, st⟩ ∈ e.pre.requests ∧
    st.signed? = some s

/-- The transactions of the signed-in handlers. -/
inductive Handler (A : App) (s : Signed) : Tx → Prop
  | touch : Handler A s (.touch s.user.sessionId now)
  | logout : Handler A s (.logout s.user.sessionId)
  | confirmTotp : Handler A s (.confirmTotp s.user text now d)
  | endOtherSessions : Handler A s (.endOtherSessions s.user now)
  | decide : c.accountId = s.user.userId → Reauthable A s work → Handler A s (.decide c work d)

/-- The transactions that end sessions of the account other than the request's:
`end_other_sessions`, `confirm_totp` and the `end_all` of `change_password`. -/
def Tx.endsSessions : Tx → Bool
  | .endOtherSessions .. | .confirmTotp .. | .decide _ (.changePassword _) _ => true
  | _ => false

/-- No login succeeds while a signed-in request holds the id that its session gets. -/
def Event.SparesIds (A : App) (e : Event) : Prop :=
  ∀ c device d value, e.Commits A (.decide c (.login device) d) (.outcome (.success value)) →
    ∀ q ∈ e.pre.requests, ∀ s, q.stage.signed? = some s →
      s.user.sessionId ≠ e.pre.db.sessions.nextRowid

/-- The row with the id that a request holds, if there is one, is the row of its token. -/
def World.IdsHeld (w : World) : Prop :=
  ∀ q ∈ w.requests, ∀ s, q.stage.signed? = some s → ∀ row ∈ w.db.sessions,
    row.id = s.user.sessionId → row.tokenHash = s.tokenHash ∧ row.userId = s.user.userId

variable {A : App} {w₀ w : World} {h : List Event} {e : Event} {s : Signed} {tx : Tx} {r : Result}
  {db db' : Db}

/-- A re-authentication checks the account of the session. -/
theorem World.Run.reauthable (hinit : w₀.Init) (H : World.Run A w₀ h w) {rid : Nat} {c : Checking}
    {work : Work} (hq : ⟨rid, .checking (some s) c work⟩ ∈ w.requests) :
    c.accountId = s.user.userId ∧ Reauthable A s work := by
  obtain ⟨h₁, e, h₂, rfl, he, -⟩ := H.entered (by rw [hinit.requests]; simp) hq
  generalize e.label = l at he
  cases he with
  | reauth _ hread hw =>
    obtain ⟨u, hu, hfind, -⟩ := checkRead_spec hread
    refine ⟨?_, hw⟩
    obtain ⟨u', hu', heq⟩ := find_id.mp hfind
    exact (Db.id_of_user? hu).symm.trans ((congrArg Account.id heq).symm.trans (Db.id_of_user? hu'))

/-- A transaction for a signed-in request is the one of its handler. -/
theorem Event.Handles.handler (hinit : w₀.Init) (H : World.Run A w₀ h e.pre)
    (hh : e.Handles A s tx r) : Handler A s tx := by
  obtain ⟨hc, rid, st, hl, hq, hst⟩ := hh
  have hf := hc.fires
  have huniq : ∀ {st'}, ⟨rid, st'⟩ ∈ e.pre.requests → st' = st :=
    fun hq' => congrArg Request.stage (AutoTable.eq_of_id_eq hq' hq rfl)
  generalize e.label = l at hf hl
  cases hf with
  | touch hq' | logout hq' | confirmTotp hq' | endOtherSessions hq' =>
    cases hl
    cases huniq hq'
    cases hst
    constructor
  | decide hq' =>
    cases hl
    cases huniq hq'
    cases hst
    obtain ⟨hid, hw⟩ := World.Run.reauthable hinit H hq
    exact .decide hid hw
  | linkSubmit hq' =>
    cases hl
    cases huniq hq'
    cases hst
  | _ => cases hl

/-- A handler's transaction leaves every session but the one with its id alone, or it ends a session
of the same account. -/
theorem Effect.session_of_handler (h : Effect A db tx r db') (hh : Handler A s tx)
    {row : SessionRow} (hrow : row ∈ db.sessions) (hid : row.id ≠ s.user.sessionId) :
    row ∈ db'.sessions ∨ tx.endsSessions = true ∧ row.userId = s.user.userId ∧
      ∀ row' ∈ db'.sessions, row'.id ≠ row.id := by
  have hothers : row ∈ (db.sessions.delete fun r =>
      r.userId = s.user.userId && r.id ≠ s.user.sessionId) ∨ row.userId = s.user.userId ∧
        ∀ row' ∈ (db.sessions.delete fun r => r.userId = s.user.userId && r.id ≠ s.user.sessionId),
          row'.id ≠ row.id := by
    by_cases hu : row.userId = s.user.userId
    · exact .inr ⟨hu, fun row' hrow' => Table.key_ne_of_mem_delete hrow (by simp [hu, hid]) hrow'⟩
    · exact .inl (Table.mem_delete.mpr ⟨hrow, by simp [hu]⟩)
  cases hh with
  | touch =>
    cases h
    exact .inl (Table.mem_update_of_not (by intro _; rfl) hrow (by simp [hid]))
  | logout =>
    cases h
    exact .inl (Table.mem_delete.mpr ⟨hrow, by simp [hid]⟩)
  | endOtherSessions =>
    cases h
    exact hothers.imp_right fun hend => ⟨rfl, hend⟩
  | confirmTotp =>
    cases h with
    | notEnrolled => exact .inl hrow
    | enrolled =>
      refine hothers.imp (fun hm => ?_) fun hend => ⟨rfl, hend.1, fun row' hrow' => ?_⟩
      · exact Table.mem_update_of_not (by intro _; rfl) hm (by simp [hid])
      · simp only [Table.mem_update] at hrow'
        obtain ⟨row₀, hm, rfl⟩ := hrow'
        have hne := hend.2 row₀ hm
        split <;> exact hne
  | decide hacc hw =>
    cases h with
    | refused | failed => exact .inl hrow
    | login => cases hw
    | changePassword hp =>
      rw [← (SecondFactor.sessions hp.factor).1] at hrow
      by_cases hu : row.userId = s.user.userId
      · exact .inr ⟨rfl, hu, fun row' hrow' =>
          Table.key_ne_of_mem_delete hrow (by simp [hu, hacc]) hrow'⟩
      · exact .inl (Table.mem_delete.mpr ⟨hrow, by simp [hu, hacc]⟩)
    | startTotp hp =>
      cases hw
      exact .inl (Table.mem_update_of_not (by intro _; rfl) hrow (by simp [hid]))
    | disableTotp hp | regenerateCodes hp =>
      rw [← (SecondFactor.sessions hp.factor).1] at hrow
      exact .inl hrow

/-- A step at which no login takes an id that is held keeps the held ids. -/
theorem Event.idsHeld (hs : e.pre.step A e.label = some e.post) (hspare : e.SparesIds A)
    (hI : e.pre.IdsHeld) : e.post.IdsHeld := by
  intro q hq s hst row hrow hid
  -- a request that held the id before the step
  have hheld : ∀ q' ∈ e.pre.requests, q'.stage.signed? = some s →
      row.tokenHash = s.tokenHash ∧ row.userId = s.user.userId := by
    intro q' hq' hst'
    rcases Event.commits_or_same hs with hsame | ⟨tx, r, hc⟩
    · rw [hsame] at hrow
      exact hI q' hq' s hst' row hrow hid
    · rcases hc.effect.session hrow with ⟨row₀, hrow₀, hfix⟩
        | ⟨c, device, d, value, _, _, rfl, rfl, -, rfl⟩
      · have hpre := hI q' hq' s hst' row₀ hrow₀ ((SessionRow.id_of_fixed hfix).trans hid)
        rw [← SessionRow.tokenHash_of_fixed hfix, ← SessionRow.userId_of_fixed hfix]
        exact hpre
      · exact absurd hid.symm (hspare c device d value hc q' hq' s hst')
  rcases Event.enters hs hq with hq' | he
  · exact hheld q hq' hst
  · have hread : ∀ {rid tokenHash now user lastSeen}, e.label = .current rid tokenHash now →
        currentRead e.pre.db tokenHash now = some (user, lastSeen) → s = ⟨tokenHash, user⟩ →
        row.tokenHash = s.tokenHash ∧ row.userId = s.user.userId := by
      rintro rid tokenHash now user lastSeen hl hread rfl
      have hsame : e.post.db = e.pre.db := by
        rcases Event.commits_or_same hs with hsame | ⟨tx, r, hc⟩
        · exact hsame
        · have hf := hc.fires
          rw [hl] at hf
          cases hf
      rw [hsame] at hrow
      obtain ⟨row₀, hrow₀, u, -, hid₀, huser, hhash, -⟩ := currentRead_spec hread
      rw [Table.eq_of_key_eq hrow hrow₀ (hid.trans hid₀.symm)]
      exact ⟨hhash, huser⟩
    generalize hl : e.label = l at he
    cases he with
    | login | linking => cases hst
    | touching hlt hcur | current hlt hcur =>
      cases hst
      exact hread hl hcur rfl
    | touched hq' | reauth hq' =>
      cases hst
      exact hheld _ hq' rfl

/-- In a run in which no login takes an id that is held, the row with the id that a request holds is
the row of its token. -/
theorem World.Run.idsHeld (hinit : w₀.Init) (H : World.Run A w₀ h w)
    (hspare : ∀ e ∈ h, e.SparesIds A) : w.IdsHeld := by
  refine H.stays World.IdsHeld ?_ ?_
  · intro q hq
    rw [hinit.requests] at hq
    simp at hq
  · rintro h₁ e h₂ rfl - hs hI
    exact Event.idsHeld hs (hspare e (by simp)) hI

/-- The transaction of a signed-in request changes or deletes only the session whose token the
request presented, apart from ending other sessions of the same account; it never changes a session
of another account. -/
theorem request_acts_on_own_session (A : App) (w₀ w : World) (h : List Event) (hinit : w₀.Init)
    (H : World.Run A w₀ h w) (hspare : ∀ e ∈ h, e.SparesIds A) (e : Event) (he : e ∈ h) (s : Signed)
    (tx : Tx) (r : Result) (hh : e.Handles A s tx r) :
    (∀ row ∈ e.pre.db.sessions, row.tokenHash ≠ s.tokenHash →
      row ∈ e.post.db.sessions ∨ tx.endsSessions = true ∧ row.userId = s.user.userId ∧
        ∀ row' ∈ e.post.db.sessions, row'.id ≠ row.id) ∧
    ∀ row ∈ e.pre.db.sessions, row.userId ≠ s.user.userId → row ∈ e.post.db.sessions := by
  obtain ⟨h₁, h₂, rfl, H₁, hs, -⟩ := H.of_mem he
  have hI := World.Run.idsHeld hinit H₁ fun e he => hspare e (List.mem_append_left _ he)
  obtain ⟨hc, rid, st, hl, hq, hst⟩ := id hh
  have hhandler := hh.handler hinit H₁
  refine ⟨fun row hrow hne => ?_, fun row hrow hne => ?_⟩
  · refine hc.effect.session_of_handler hhandler hrow fun hid => ?_
    exact hne (hI _ hq s hst row hrow hid).1
  · have hid : row.id ≠ s.user.sessionId := fun hid => hne (hI _ hq s hst row hrow hid).2
    rcases hc.effect.session_of_handler hhandler hrow hid with hmem | ⟨-, hu, -⟩
    · exact hmem
    · exact absurd hu hne

/-! ## Two runs -/

/-- With no signed-in request that holds the next id, a step spares the ids. -/
theorem Event.sparesIds_of_all (hall : e.pre.requests.rows.all (fun q => q.stage.signed?.all
    fun s => s.user.sessionId ≠ e.pre.db.sessions.nextRowid) = true) : e.SparesIds A := by
  intro c device d value _ q hq s hst
  have hq := List.all_eq_true.mp hall q hq
  rw [hst] at hq
  simpa using hq

namespace OwnSession

def owner : UserRow := .sample 1 "m@kohaku.test".toList "the password".toList .maintainer none

def other : UserRow := .sample 2 "n@kohaku.test".toList "a password".toList .maintainer none

def start : World := .start ⟨[owner, other], by decide⟩

/-- The token hash that the owner's request presents. -/
def tokenHash : Bytes := asBytes (tokenText App.sample.base64 (Draws.sample 1).token)

def signed : Signed where
  tokenHash := tokenHash
  user := ⟨1, 1, .maintainer, owner.email, false, (Draws.sample 1).csrf.toList⟩

theorem init : start.Init := World.init_start (by decide)

/-- Both accounts are signed in, the owner twice; the owner ends their other sessions. -/
def labels : List Label :=
  [.login 1 owner.email "the password".toList [] none 0, .decide 1 (.sample 1),
    .login 2 other.email "a password".toList [] none 1, .decide 2 (.sample 2),
    .login 3 owner.email "the password".toList [] none 2, .decide 3 (.sample 3),
    .current 4 tokenHash 10, .post 4 (Draws.sample 1).csrf.toList .endOthers none 10 (.sample 4)]

def history : List Event := Lts.history (World.step App.sample) start labels

theorem run : World.Run App.sample start history (Lts.last start history) :=
  .of_history (by decide)

def last : Event := history.getLast (by decide)

theorem last_mem : last ∈ history := List.getLast_mem _

theorem handles : last.Handles App.sample signed (.endOtherSessions signed.user 10) .unit :=
  ⟨Event.commits_of_eval (run.step_of_mem last_mem) (by decide) (by decide),
    4, .handler signed, by decide, World.mem_of_stage? (by decide), rfl⟩

end OwnSession

/-- The owner's request leaves the session of the other account in place. -/
theorem end_others_spares_other_account :
    ∃ row ∈ OwnSession.last.post.db.sessions, row.userId = 2 := by
  have hspare : ∀ e ∈ OwnSession.history, e.SparesIds App.sample := by
    have hall : ∀ e ∈ OwnSession.history, e.pre.requests.rows.all (fun q => q.stage.signed?.all
        fun s => s.user.sessionId ≠ e.pre.db.sessions.nextRowid) = true := by decide
    exact fun e he => Event.sparesIds_of_all (hall e he)
  have hrow : (OwnSession.last.pre.db.sessions.find? fun row => row.userId = 2).isSome = true := by
    decide
  obtain ⟨row, hrow⟩ := Option.isSome_iff_exists.mp hrow
  have hu : row.userId = 2 := by simpa using Table.of_find? hrow
  refine ⟨row, ?_, hu⟩
  refine (request_acts_on_own_session App.sample OwnSession.start _ _ OwnSession.init OwnSession.run
    hspare OwnSession.last OwnSession.last_mem OwnSession.signed _ _ OwnSession.handles).2 row
    (Table.mem_of_find? hrow) ?_
  rw [hu]
  decide

namespace ReusedId

open OwnSession (owner other start tokenHash signed)

/-- Two requests of the owner are let in; one logs out, the other account signs in under the id that
became free, and the second request logs out. -/
def labels : List Label :=
  [.login 1 owner.email "the password".toList [] none 0, .decide 1 (.sample 1),
    .current 2 tokenHash 10, .current 3 tokenHash 10,
    .post 2 (Draws.sample 1).csrf.toList .logout none 11 (.sample 2),
    .login 4 other.email "a password".toList [] none 12, .decide 4 (.sample 2),
    .post 3 (Draws.sample 1).csrf.toList .logout none 13 (.sample 3)]

def history : List Event := Lts.history (World.step App.sample) start labels

theorem run : World.Run App.sample start history (Lts.last start history) :=
  .of_history (by decide)

def last : Event := history.getLast (by decide)

theorem last_mem : last ∈ history := List.getLast_mem _

theorem handles : last.Handles App.sample signed (.logout 1) .unit :=
  ⟨Event.commits_of_eval (run.step_of_mem last_mem) (by decide) (by decide),
    3, .handler signed, by decide, World.mem_of_stage? (by decide), rfl⟩

end ReusedId

/-- The owner's logout deletes the session of the other account. -/
theorem logout_ends_other_session :
    OwnSession.start.Init ∧ ReusedId.last ∈ ReusedId.history ∧
      World.Run App.sample OwnSession.start ReusedId.history
        (Lts.last OwnSession.start ReusedId.history) ∧
      ReusedId.last.Handles App.sample OwnSession.signed (.logout 1) .unit ∧
      (∃ row ∈ ReusedId.last.pre.db.sessions, row.userId = 2 ∧
        row.tokenHash ≠ OwnSession.signed.tokenHash) ∧
      ReusedId.last.post.db.sessions.rows = [] := by
  refine ⟨OwnSession.init, ReusedId.last_mem, ReusedId.run, ReusedId.handles, ?_, by decide⟩
  have hrow : (ReusedId.last.pre.db.sessions.find? fun row =>
      row.userId = 2 && row.tokenHash ≠ OwnSession.signed.tokenHash).isSome = true := by
    decide
  obtain ⟨row, hrow⟩ := Option.isSome_iff_exists.mp hrow
  exact ⟨row, Table.mem_of_find? hrow, by simpa using Table.of_find? hrow⟩

end Kohaku
