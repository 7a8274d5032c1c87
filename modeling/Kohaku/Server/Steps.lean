import Kohaku.Server.Effect

/-!
# What a step can do

A step of the server commits at most one transaction (`step_cases`). `Fires` says which request in
progress, or which label, a transaction belongs to, and `Enters` how a request comes to a stage;
they are the inversion lemmas of `plan`.
-/

namespace Kohaku

open Sql Credentials

/-- The success works of the re-authenticated handlers, with what the handler checked before. -/
inductive Reauthable (A : App) (s : Signed) : Work → Prop
  | changePassword : Reauthable A s (.changePassword (A.hashPassword new salt))
  | startTotp : Reauthable A s (.startTotp s.user.sessionId)
  | disableTotp : s.user.role.requiresTwoFactor = false → Reauthable A s .disableTotp
  | regenerateCodes : s.user.totpEnrolled = true → Reauthable A s .regenerateCodes

/-- How a request comes to a stage. -/
inductive Enters (A : App) (w : World) : Label → Request → Prop
  | login : w.requests.seq < rid →
    checkRead A w.db ⟨.email (normalizeEmail email), password, text, device⟩ now = some (uid, v) →
    Enters A w (.login rid email password text device now)
      ⟨rid, .checking none ⟨⟨.email (normalizeEmail email), password, text, device⟩, now, uid, v⟩
        (.login device)⟩
  | touching : w.requests.seq < rid → currentRead w.db tokenHash now = some (user, lastSeen) →
    Enters A w (.current rid tokenHash now) ⟨rid, .touching ⟨tokenHash, user⟩ now⟩
  | current : w.requests.seq < rid → currentRead w.db tokenHash now = some (user, lastSeen) →
    Enters A w (.current rid tokenHash now) ⟨rid, .handler ⟨tokenHash, user⟩⟩
  | touched : ⟨rid, .touching s now⟩ ∈ w.requests → Enters A w (.touch rid) ⟨rid, .handler s⟩
  | reauth : ⟨rid, .handler s⟩ ∈ w.requests →
    checkRead A w.db ⟨.id s.user.userId, password, text, device⟩ now = some (uid, v) →
    Reauthable A s work →
    Enters A w (.post rid csrf form device now d)
      ⟨rid, .checking (some s) ⟨⟨.id s.user.userId, password, text, device⟩, now, uid, v⟩ work⟩
  | linking : w.requests.seq < rid → tokenValid A w.db token now = true →
    Enters A w (.linkRead rid token password again salt now)
      ⟨rid, .linking (A.sha256 (asBytes token)) (A.hashPassword password salt)⟩

/-- The transaction a step runs, with the request it belongs to. -/
inductive Fires (w : World) : Label → Tx → Prop
  | touch : ⟨rid, .touching s now⟩ ∈ w.requests →
    Fires w (.touch rid) (.touch s.user.sessionId now)
  | logout : ⟨rid, .handler s⟩ ∈ w.requests →
    Fires w (.post rid csrf .logout device now d) (.logout s.user.sessionId)
  | confirmTotp : ⟨rid, .handler s⟩ ∈ w.requests →
    Fires w (.post rid csrf (.confirmTotp text) device now d) (.confirmTotp s.user text now d)
  | endOtherSessions : ⟨rid, .handler s⟩ ∈ w.requests →
    Fires w (.post rid csrf .endOthers device now d) (.endOtherSessions s.user now)
  | decide : ⟨rid, .checking s c work⟩ ∈ w.requests →
    Fires w (.decide rid d) (.decide c work d)
  | queueReset : Fires w (.requestReset email now token)
      (.queueReset (normalizeEmail email) now token)
  | linkSubmit : ⟨rid, .linking tokenHash phc⟩ ∈ w.requests →
    Fires w (.linkSubmit rid now) (.linkSubmit tokenHash phc now)
  | unlock : Fires w (.unlock email now) (.unlock email now)
  | resetPassword : Fires w (.resetPassword email now token) (.resetPassword email now token)
  | pick : w.attempting = none → Fires w (.pick now unixepoch) (.pick now unixepoch)
  | record : w.attempting = some row →
    Fires w (.record outcome endedAt unixepoch) (.record row outcome endedAt unixepoch)
  | retentionOutbox : Fires w (.retentionOutbox now unixepoch) (.retentionOutbox now unixepoch)
  | retentionAudit : Fires w (.retentionAudit now) (.retentionAudit now)
  | retentionSignIn : Fires w (.retentionSignIn now) (.retentionSignIn now)
  | setDisabled : Fires w (.setDisabled uid b) (.setDisabled uid b)

namespace World

variable {A : App} {w w' : World} {l : Label} {p : Plan} {rid : Nat} {tx : Tx} {r : Request}

theorem mem_of_stage? {st : Stage} (h : w.stage? rid = some st) : ⟨rid, st⟩ ∈ w.requests := by
  obtain ⟨q, hq, rfl⟩ := Option.map_eq_some_iff.mp h
  obtain ⟨hmem, rfl⟩ := Table.get?_eq_some.mp hq
  exact hmem

theorem stage?_of_mem {st : Stage} (h : ⟨rid, st⟩ ∈ w.requests) : w.stage? rid = some st := by
  unfold stage?
  rw [Table.get?_eq_some.mpr ⟨h, rfl⟩]
  rfl

/-! ## The four shapes of a plan -/

theorem arrive_eq_some {stage : Option Stage} (h : w.arrive rid stage = some p) :
    p.tx = none ∧ w.requests.seq < rid ∧ p.requests.seq = rid ∧
      ∀ r, r ∈ p.requests ↔ r ∈ w.requests ∨ ∃ st, stage = some st ∧ r = ⟨rid, st⟩ := by
  unfold arrive at h
  split at h
  · rename_i hlt
    cases stage with
    | some st =>
      cases h
      exact ⟨rfl, hlt, rfl, fun r => by rw [AutoTable.mem_insertAt]; simp⟩
    | none =>
      cases h
      exact ⟨rfl, hlt, rfl,
        fun r => by rw [← AutoTable.mem_toTable, AutoTable.toTable_skipTo]; simp⟩
  · cases h

theorem mem_answer {tx : Option Tx} :
    r ∈ (w.answer rid tx).requests ↔ r ∈ w.requests ∧ r.rid ≠ rid := by
  simp [answer, AutoTable.mem_delete]

theorem mem_advance {st : Stage} {tx : Option Tx} (h : r ∈ (w.advance rid st tx).requests) :
    (r ∈ w.requests ∧ r.rid ≠ rid) ∨ r = ⟨rid, st⟩ := by
  simp only [advance, AutoTable.mem_update] at h
  obtain ⟨q, hq, rfl⟩ := h
  by_cases hid : q.rid = rid
  · right
    simp [hid]
  · left
    simp [hid, hq]

theorem mem_advance_of_ne {st : Stage} {tx : Option Tx} (hr : r ∈ w.requests) (hne : r.rid ≠ rid) :
    r ∈ (w.advance rid st tx).requests :=
  AutoTable.mem_update.mpr ⟨r, hr, by simp [hne]⟩

theorem mem_advance_self {st st₀ : Stage} {tx : Option Tx} (hr : ⟨rid, st₀⟩ ∈ w.requests) :
    ⟨rid, st⟩ ∈ (w.advance rid st tx).requests :=
  AutoTable.mem_update.mpr ⟨_, hr, by simp⟩

/-- A re-authentication is answered or comes to the check; it runs no transaction. -/
theorem reauth_cases (A : App) (w : World) (rid : Nat) (s : Signed) (password text : Str)
    (device : Option Bytes) (now : Time) (work : Work) :
    w.reauth A rid s password text device now work = w.answer rid none ∨
      ∃ uid v, checkRead A w.db ⟨.id s.user.userId, password, text, device⟩ now = some (uid, v) ∧
        w.reauth A rid s password text device now work =
          w.advance rid (.checking (some s)
            ⟨⟨.id s.user.userId, password, text, device⟩, now, uid, v⟩ work) none := by
  unfold reauth
  dsimp only
  split
  · exact .inl rfl
  · rename_i uid v h
    exact .inr ⟨uid, v, h, rfl⟩

/-- What a signed-in handler does: it is answered, with or without a transaction of its own, or
re-authenticates. -/
theorem handle_cases (A : App) (w : World) (rid : Nat) (s : Signed) (device : Option Bytes)
    (now : Time) (d : Draws) (form : Form) :
    w.handle A rid s device now d form = w.answer rid none ∨
      (∃ tx, w.handle A rid s device now d form = w.answer rid (some tx) ∧
        (form = .logout ∧ tx = .logout s.user.sessionId ∨
          (∃ text, form = .confirmTotp text ∧ tx = .confirmTotp s.user text now d) ∨
          form = .endOthers ∧ tx = .endOtherSessions s.user now)) ∨
      ∃ password text work, Reauthable A s work ∧ w.handle A rid s device now d form =
        w.reauth A rid s password text device now work := by
  cases form with
  | logout => exact .inr (.inl ⟨_, rfl, .inl ⟨rfl, rfl⟩⟩)
  | confirmTotp text => exact .inr (.inl ⟨_, rfl, .inr (.inl ⟨text, rfl, rfl⟩)⟩)
  | endOthers => exact .inr (.inl ⟨_, rfl, .inr (.inr ⟨rfl, rfl⟩)⟩)
  | password current text new again salt =>
    simp only [handle]
    split
    · exact .inl rfl
    · split
      · exact .inl rfl
      · exact .inr (.inr ⟨current, text, _, .changePassword, rfl⟩)
  | startTotp current text => exact .inr (.inr ⟨current, text, _, .startTotp, rfl⟩)
  | disableTotp current text =>
    simp only [handle]
    split
    · exact .inl rfl
    · rename_i h
      exact .inr (.inr ⟨current, text, _, .disableTotp (by simpa using h), rfl⟩)
  | regenerateCodes current text =>
    simp only [handle]
    split
    · exact .inl rfl
    · rename_i h
      exact .inr (.inr ⟨current, text, _, .regenerateCodes (by simpa using h), rfl⟩)

/-- Request numbers only go up. -/
theorem plan_seq_le (h : w.plan A l = some p) : w.requests.seq ≤ p.requests.seq := by
  cases l with
  | login | current | linkRead =>
    obtain ⟨-, hlt, hseq, -⟩ := arrive_eq_some h
    rw [hseq]
    exact hlt.le
  | touch | decide | linkSubmit =>
    simp only [plan] at h
    split at h
    · cases h
      exact le_rfl
    · cases h
  | post rid csrf form device now d =>
    simp only [plan] at h
    split at h
    · rename_i s hst
      split at h
      · cases h
        rcases handle_cases A w rid s device now d form with he | ⟨tx', he, _⟩
          | ⟨pw, text, work, _, he⟩
        · rw [he]; exact le_rfl
        · rw [he]; exact le_rfl
        · rcases reauth_cases A w rid s pw text device now work with hr | ⟨uid, v, _, hr⟩
          · rw [he, hr]; exact le_rfl
          · rw [he, hr]; exact le_rfl
      · cases h
        exact le_rfl
    · cases h
  | pick =>
    simp only [plan] at h
    split at h
    · cases h
      exact le_rfl
    · cases h
  | record =>
    obtain ⟨row, _, rfl⟩ := Option.map_eq_some_iff.mp h
    exact le_rfl
  | finish | requestReset | linkForm | unlock | resetPassword | dropAttempt | retentionOutbox
  | retentionAudit | retentionSignIn | setDisabled =>
    cases h
    exact le_rfl

/-! ## Inversion of `plan` -/

theorem plan_fires (h : w.plan A l = some p) (htx : p.tx = some tx) : Fires w l tx := by
  cases l with
  | login | current | linkRead =>
    obtain ⟨hn, -⟩ := arrive_eq_some h
    rw [hn] at htx
    cases htx
  | touch rid =>
    simp only [plan] at h
    split at h
    · rename_i hst
      cases h
      cases htx
      exact .touch (mem_of_stage? hst)
    · cases h
  | post rid csrf form device now d =>
    simp only [plan] at h
    split at h
    · rename_i s hst
      split at h
      · rcases handle_cases A w rid s device now d form with he | ⟨tx', he, hf⟩
          | ⟨pw, text, work, _, he⟩
        · rw [he] at h
          cases h
          cases htx
        · rw [he] at h
          cases h
          cases htx
          rcases hf with ⟨rfl, rfl⟩ | ⟨text, rfl, rfl⟩ | ⟨rfl, rfl⟩
          · exact .logout (mem_of_stage? hst)
          · exact .confirmTotp (mem_of_stage? hst)
          · exact .endOtherSessions (mem_of_stage? hst)
        · rcases reauth_cases A w rid s pw text device now work with hr | ⟨uid, v, _, hr⟩
          · rw [he, hr] at h
            cases h
            cases htx
          · rw [he, hr] at h
            cases h
            cases htx
      · cases h
        cases htx
    · cases h
  | decide rid d =>
    simp only [plan] at h
    split at h
    · rename_i hst
      cases h
      cases htx
      exact .decide (mem_of_stage? hst)
    · cases h
  | requestReset email now token =>
    cases h
    dsimp only at htx
    split at htx
    · cases htx
      exact .queueReset
    · cases htx
  | linkSubmit rid now =>
    simp only [plan] at h
    split at h
    · rename_i hst
      cases h
      cases htx
      exact .linkSubmit (mem_of_stage? hst)
    · cases h
  | pick now unixepoch =>
    simp only [plan] at h
    split at h
    · cases h
      cases htx
      exact .pick ‹_›
    · cases h
  | record outcome endedAt unixepoch =>
    obtain ⟨row, hrow, rfl⟩ := Option.map_eq_some_iff.mp h
    cases htx
    exact .record hrow
  | finish | linkForm | dropAttempt => cases h; cases htx
  | unlock => cases h; cases htx; exact .unlock
  | resetPassword => cases h; cases htx; exact .resetPassword
  | retentionOutbox => cases h; cases htx; exact .retentionOutbox
  | retentionAudit => cases h; cases htx; exact .retentionAudit
  | retentionSignIn => cases h; cases htx; exact .retentionSignIn
  | setDisabled => cases h; cases htx; exact .setDisabled

/-- A request after a step was there before or came to its stage by the step. -/
theorem plan_enters (h : w.plan A l = some p) (hr : r ∈ p.requests) :
    r ∈ w.requests ∨ Enters A w l r := by
  cases l with
  | login rid email password text device now =>
    obtain ⟨-, hlt, -, hmem⟩ := arrive_eq_some h
    rcases (hmem r).mp hr with hr | ⟨st, hst, rfl⟩
    · exact .inl hr
    · obtain ⟨⟨uid, v⟩, hc, rfl⟩ := Option.map_eq_some_iff.mp hst
      exact .inr (.login hlt hc)
  | current rid tokenHash now =>
    obtain ⟨-, hlt, -, hmem⟩ := arrive_eq_some h
    rcases (hmem r).mp hr with hr | ⟨st, hst, rfl⟩
    · exact .inl hr
    · obtain ⟨⟨user, lastSeen⟩, hc, rfl⟩ := Option.map_eq_some_iff.mp hst
      right
      dsimp only
      split
      · exact .touching hlt hc
      · exact .current hlt hc
  | linkRead rid token password again salt now =>
    obtain ⟨-, hlt, -, hmem⟩ := arrive_eq_some h
    rcases (hmem r).mp hr with hr | ⟨st, hst, rfl⟩
    · exact .inl hr
    · split at hst
      · cases hst
      · rename_i hv
        split at hst
        · cases hst
        · split at hst
          · cases hst
          · cases hst
            exact .inr (.linking hlt (by simpa using hv))
  | touch rid =>
    simp only [plan] at h
    split at h
    · rename_i hst
      cases h
      rcases mem_advance hr with hr | rfl
      · exact .inl hr.1
      · exact .inr (.touched (mem_of_stage? hst))
    · cases h
  | post rid csrf form device now d =>
    simp only [plan] at h
    split at h
    · rename_i s hst
      split at h
      · cases h
        rcases handle_cases A w rid s device now d form with he | ⟨tx', he, _⟩
          | ⟨pw, text, work, hw, he⟩
        · rw [he] at hr
          exact .inl (mem_answer.mp hr).1
        · rw [he] at hr
          exact .inl (mem_answer.mp hr).1
        · rcases reauth_cases A w rid s pw text device now work with hq | ⟨uid, v, hc, hq⟩
          · rw [he, hq] at hr
            exact .inl (mem_answer.mp hr).1
          · rw [he, hq] at hr
            rcases mem_advance hr with hr | rfl
            · exact .inl hr.1
            · exact .inr (.reauth (mem_of_stage? hst) hc hw)
      · cases h
        exact .inl (mem_answer.mp hr).1
    · cases h
  | decide rid d =>
    simp only [plan] at h
    split at h
    · cases h
      exact .inl (mem_answer.mp hr).1
    · cases h
  | linkSubmit rid now =>
    simp only [plan] at h
    split at h
    · cases h
      exact .inl (mem_answer.mp hr).1
    · cases h
  | pick =>
    simp only [plan] at h
    split at h
    · cases h
      exact .inl hr
    · cases h
  | record =>
    obtain ⟨row, _, rfl⟩ := Option.map_eq_some_iff.mp h
    exact .inl hr
  | finish => cases h; exact .inl (mem_answer.mp hr).1
  | requestReset | linkForm | unlock | resetPassword | dropAttempt | retentionOutbox
  | retentionAudit | retentionSignIn | setDisabled => cases h; exact .inl hr

end World

/-! ## Steps of a run -/

/-- A step of a run of the server. -/
abbrev Event := Lts.Step World Label

/-- The step committed the transaction `tx`, which returned `r`. -/
def Event.Commits (A : App) (e : Event) (tx : Tx) (r : Result) : Prop :=
  ∃ p, e.pre.plan A e.label = some p ∧ p.tx = some tx ∧ tx.run A e.pre.db = some (r, e.post.db)

/-- The request that is answered by the transaction of a step. -/
def Label.answers? : Label → Option Nat
  | .post rid .. | .decide rid _ | .linkSubmit rid _ => some rid
  | _ => none

namespace Event

variable {A : App} {e : Event} {tx : Tx} {r : Result}

theorem Commits.effect (h : e.Commits A tx r) : Effect A e.pre.db tx r e.post.db := by
  obtain ⟨_, _, _, hrun⟩ := h
  exact Tx.run_effect hrun

theorem Commits.fires (h : e.Commits A tx r) : Fires e.pre e.label tx := by
  obtain ⟨_, hp, htx, _⟩ := h
  exact World.plan_fires hp htx

/-- A step commits one transaction. -/
theorem Commits.unique {tx' : Tx} {r' : Result} (h : e.Commits A tx r) (h' : e.Commits A tx' r') :
    tx = tx' ∧ r = r' := by
  obtain ⟨p, hp, htx, hrun⟩ := h
  obtain ⟨p', hp', htx', hrun'⟩ := h'
  rw [hp] at hp'
  cases hp'
  rw [htx] at htx'
  cases htx'
  rw [hrun] at hrun'
  cases hrun'
  exact ⟨rfl, rfl⟩

/-- A transaction that a step runs and that is not rolled back is committed. -/
theorem commits_of_run (h : e.pre.step A e.label = some e.post) {p : Plan} {db : Db}
    (hp : e.pre.plan A e.label = some p) (htx : p.tx = some tx)
    (hrun : tx.run A e.pre.db = some (r, db)) : e.Commits A tx r := by
  obtain ⟨q, hq, he⟩ := Option.map_eq_some_iff.mp h
  rw [hp] at hq
  cases hq
  simp only [World.after, htx, Option.bind_some, hrun] at he
  refine ⟨p, hp, htx, ?_⟩
  rw [hrun, ← he]

/-- The same by evaluation. -/
theorem commits_of_eval (h : e.pre.step A e.label = some e.post)
    (hp : (e.pre.plan A e.label).bind Plan.tx = some tx)
    (hr : (tx.run A e.pre.db).map Prod.fst = some r) : e.Commits A tx r := by
  obtain ⟨p, hp, htx⟩ := Option.bind_eq_some_iff.mp hp
  obtain ⟨⟨_, db⟩, hrun, rfl⟩ := Option.map_eq_some_iff.mp hr
  exact commits_of_run h hp htx hrun

/-- A step commits one transaction or leaves the database as it is. -/
theorem commits_or_same (h : e.pre.step A e.label = some e.post) :
    e.post.db = e.pre.db ∨ ∃ tx r, e.Commits A tx r := by
  obtain ⟨p, hp, he⟩ := Option.map_eq_some_iff.mp h
  unfold World.after at he
  split at he
  · rename_i r db hrun
    obtain ⟨tx, htx, hrun⟩ := Option.bind_eq_some_iff.mp hrun
    refine .inr ⟨tx, r, p, hp, htx, ?_⟩
    rw [← he]
    exact hrun
  · rw [← he]
    exact .inl rfl

/-- The same as a case distinction. -/
theorem commits_cases (h : e.pre.step A e.label = some e.post) :
    (∃ tx r, e.Commits A tx r) ∨ e.post.db = e.pre.db ∧ ∀ tx r, ¬e.Commits A tx r := by
  by_cases hc : ∃ tx r, e.Commits A tx r
  · exact .inl hc
  · push Not at hc
    rcases commits_or_same h with hsame | ⟨tx, r, hcom⟩
    · exact .inr ⟨hsame, hc⟩
    · exact absurd hcom (hc tx r)

theorem exists_plan (h : e.pre.step A e.label = some e.post) :
    ∃ p, e.pre.plan A e.label = some p ∧ e.post.requests = p.requests := by
  obtain ⟨p, hp, he⟩ := Option.map_eq_some_iff.mp h
  refine ⟨p, hp, ?_⟩
  rw [← he]
  unfold World.after
  split <;> rfl

/-- A request after a step was there before or came to its stage by the step. -/
theorem enters (h : e.pre.step A e.label = some e.post) {q : Request} (hq : q ∈ e.post.requests) :
    q ∈ e.pre.requests ∨ Enters A e.pre e.label q := by
  obtain ⟨p, hp, hreq⟩ := exists_plan h
  exact World.plan_enters hp (hreq ▸ hq)

/-- A request whose handler or check has run its transaction is answered. -/
theorem Commits.answered (h : e.Commits A tx r) (hs : e.pre.step A e.label = some e.post)
    {rid : Nat} (hl : e.label.answers? = some rid) {q : Request} (hq : q ∈ e.post.requests) :
    q.rid ≠ rid := by
  obtain ⟨p, hp, htx, -⟩ := h
  obtain ⟨p', hp', hreq⟩ := exists_plan hs
  rw [hp] at hp'
  cases hp'
  rw [hreq] at hq
  generalize e.label = l at hp hl
  cases l with
  | decide | linkSubmit =>
    cases hl
    simp only [World.plan] at hp
    split at hp
    · cases hp
      exact (World.mem_answer.mp hq).2
    · cases hp
  | post rid csrf form device now d =>
    cases hl
    simp only [World.plan] at hp
    split at hp
    · rename_i s hst
      split at hp
      · cases hp
        rcases World.handle_cases A e.pre rid s device now d form with
          he | ⟨tx', he, _⟩ | ⟨pw, text, work, _, he⟩
        · rw [he] at hq
          exact (World.mem_answer.mp hq).2
        · rw [he] at hq
          exact (World.mem_answer.mp hq).2
        · -- a re-authentication runs its transaction later
          rcases World.reauth_cases A e.pre rid s pw text device now work with hr | ⟨uid, v, _, hr⟩
          · rw [he, hr] at htx
            cases htx
          · rw [he, hr] at htx
            cases htx
      · cases hp
        exact (World.mem_answer.mp hq).2
    · cases hp
  | _ => cases hl

/-- A check or a link that was just read is not part of a transaction. -/
theorem same_of_enters (hs : e.pre.step A e.label = some e.post) {q : Request}
    (hq : q ∈ e.post.requests) (he : Enters A e.pre e.label q) (hst : ∀ s, q.stage ≠ .handler s) :
    e.post.db = e.pre.db := by
  rcases commits_or_same hs with hsame | ⟨tx, r, hc⟩
  · exact hsame
  · exfalso
    have hans : ∀ rid, e.label.answers? = some rid → q.rid ≠ rid :=
      fun rid hl => hc.answered hs hl hq
    have hf := hc.fires
    generalize e.label = l at he hf hans
    cases he with
    | login | touching | linking => cases hf
    | current | touched => exact hst _ rfl
    | reauth => exact hans _ rfl rfl

theorem seq_le (h : e.pre.step A e.label = some e.post) :
    e.pre.requests.seq ≤ e.post.requests.seq := by
  obtain ⟨p, hp, hreq⟩ := exists_plan h
  rw [hreq]
  exact World.plan_seq_le hp

/-- Right after a login's read its check is the only request with its number. -/
theorem login_checking (h : e.pre.step A e.label = some e.post) {rid uid : Nat}
    {email password text : Str} {device : Option Bytes} {now : Time} {v : Verified}
    (hl : e.label = .login rid email password text device now)
    (hread : checkRead A e.pre.db ⟨.email (normalizeEmail email), password, text, device⟩ now =
      some (uid, v)) :
    rid ≤ e.post.requests.seq ∧ ∀ q ∈ e.post.requests, q.rid = rid →
      q = ⟨rid, .checking none ⟨⟨.email (normalizeEmail email), password, text, device⟩,
        now, uid, v⟩
        (.login device)⟩ := by
  obtain ⟨p, hp, hreq⟩ := exists_plan h
  rw [hl] at hp
  obtain ⟨-, hlt, hseq, hmem⟩ := World.arrive_eq_some hp
  rw [hreq]
  refine ⟨hseq.ge, fun q hq hrid => ?_⟩
  rcases (hmem q).mp hq with hq | ⟨st, hst, rfl⟩
  · exact absurd (hrid ▸ AutoTable.id_le_seq hq) hlt.not_ge
  · rw [hread] at hst
    cases hst
    rfl

/-- A check in progress is the only request with its number, and stays so. -/
theorem checking_stable (h : e.pre.step A e.label = some e.post) {rid : Nat} {s : Option Signed}
    {c : Checking} {work : Work} (hseq : rid ≤ e.pre.requests.seq)
    (hpre : ∀ q ∈ e.pre.requests, q.rid = rid → q = ⟨rid, .checking s c work⟩) :
    ∀ q ∈ e.post.requests, q.rid = rid → q = ⟨rid, .checking s c work⟩ := by
  intro q hq hrid
  rcases enters h hq with hq | he
  · exact hpre q hq hrid
  · -- a new request has a larger number, and a check does not change its stage
    generalize e.label = l at he
    cases he with
    | login hlt | touching hlt | current hlt | linking hlt =>
      exact absurd (hrid ▸ hlt) hseq.not_gt
    | touched hm | reauth hm =>
      cases hpre _ hm hrid

end Event

namespace World.Run

variable {A : App} {w₀ w : World} {h : List Event} {q : Request}

/-- A request in progress came to its stage by a step and has stayed there since. -/
theorem entered (H : World.Run A w₀ h w) (h0 : q ∉ w₀.requests) (hq : q ∈ w.requests) :
    ∃ h₁ e h₂, h = h₁ ++ e :: h₂ ∧ Enters A e.pre e.label q ∧
      ∀ e' ∈ h₂, q ∈ e'.pre.requests ∧ q ∈ e'.post.requests := by
  obtain ⟨h₁, e, h₂, rfl, hpre, hpost, hkeep⟩ := H.origin (fun w => q ∈ w.requests) h0 hq
  obtain ⟨-, hs, -⟩ := H.split
  rcases Event.enters hs hpost with hq' | he
  · exact absurd hq' hpre
  · exact ⟨h₁, e, h₂, rfl, he, hkeep⟩

end World.Run

end Kohaku
