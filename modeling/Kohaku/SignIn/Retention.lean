import Kohaku.Lts.Mealy
import Kohaku.SignIn.Devices
import Kohaku.SignIn.Lifetime
import Kohaku.Sql.Purged

/-!
# Retention of sign-in state is not observed

Retention deletes a session, a device cookie or a reset token under a condition of its own, next to
the conditions under which they are accepted. Two databases, one with and one without the rows that
retention has deleted (`Db.Purged`), are compared step by step: no statement of a sign-in, a reset
or a give-up selects such a row. Row ids are given again after a deletion, so the rows that are left
may be numbered differently; `add_device` orders by id where times are equal, and the order of the
ids is the same.
-/

namespace Kohaku

open Sql

/-! ## The steps -/

/-- How a submitted reset link ends, short of a failure. -/
inductive LinkAnswer
  | invalid
  | rule (rule : PasswordRule)
  | differ
  | done
  deriving DecidableEq

/-- What a step answers. A session is shown without its row id. -/
inductive Answer
  /-- The transaction failed and was rolled back. -/
  | failed
  | checked (o : Outcome Value)
  | session (user : Option SessionUser)
  | known (known : Bool)
  | cookie (cookie : Str)
  | queued
  | link (link : Str)
  | valid (valid : Bool)
  | submitted (answer : LinkAnswer)
  | unit
  deriving DecidableEq

/-- The calls whose answers retention must not change, and retention itself. -/
inductive Act
  | login (email password code : Str) (device : Option Bytes) (now : Time) (d : Draws)
  /-- `current`, with the hash of the session cookie. -/
  | session (hash : Bytes) (now : Time)
  | isKnownDevice (userId : Nat) (hash : Bytes) (now : Time)
  | addDevice (userId : Nat) (now : Time) (token : Vector UInt8 32)
  /-- The reset form. -/
  | requestReset (email : Str) (now : Time) (token : Vector UInt8 32)
  /-- `kohaku admin reset-password`. -/
  | resetPassword (email : Str) (now : Time) (token : Vector UInt8 32)
  | giveUp (outboxId : Nat) (now : Time)
  | giveUpExpired (now : Time)
  | linkForm (token : Str) (now : Time)
  | linkSubmit (token password again : Str) (salt : Bytes) (now : Time)
  | retention (now : Time)

namespace Act

/-- The clock value of a call. -/
def time : Act → Time
  | login _ _ _ _ now _ | session _ now | isKnownDevice _ _ now | addDevice _ now _
  | requestReset _ now _ | resetPassword _ now _ | giveUp _ now | giveUpExpired now
  | linkForm _ now | linkSubmit _ _ _ _ now | retention now => now

/-- The call is retention. -/
def isRetention : Act → Bool
  | retention _ => true
  | _ => false

end Act

/-- `POST /admin/login`: the check with the success work of `submit`. -/
def login (A : App) (db : Db) (email password code : Str) (device : Option Bytes) (now : Time)
    (d : Draws) : Option (Outcome Value × Db) :=
  match Credentials.checkRead A db ⟨.email (normalizeEmail email), password, code, device⟩ now with
  | none => some (.failure, db)
  | some (id, verified) =>
    Credentials.decide A db id verified now fun db account now =>
      Work.loginRun A device d db account now

/-- `POST /admin/reset/{token}`. -/
def submitLink (A : App) (db : Db) (token password again : Str) (salt : Bytes) (now : Time) :
    Option (LinkAnswer × Db) :=
  if tokenValid A db token now then
    match checkPasswordRule password with
    | .error rule => some (.rule rule, db)
    | .ok () =>
      if password ≠ again then some (.differ, db)
      else
        (linkSubmit A db (A.sha256 (asBytes token)) (A.hashPassword password salt) now).map
          fun (consumed, db) => (if consumed then .done else .invalid, db)
  else some (.invalid, db)

/-- `POST /admin/reset`, past its limits. -/
def requestReset (A : App) (db : Db) (email : Str) (now : Time) (token : Vector UInt8 32) :
    Option Db :=
  if validEmail A (normalizeEmail email) then queueReset A db (normalizeEmail email) now token
  else some db

/-- A transaction that is rolled back changes nothing. -/
def orFailed {α : Type} (db : Db) (answer : α → Answer) (x : Option (α × Db)) : Answer × Db :=
  match x with
  | some (a, db) => (answer a, db)
  | none => (.failed, db)

/-- A call's answer and the database after it. -/
def Act.perform (A : App) (db : Db) : Act → Answer × Db
  | login email password code device now d =>
    orFailed db .checked (Kohaku.login A db email password code device now d)
  | session hash now =>
    let (user, db) := current db hash now
    (.session (user.map fun user => { user with sessionId := 0 }), db)
  | isKnownDevice userId hash now => (.known (Kohaku.isKnownDevice db userId hash now), db)
  | addDevice userId now token =>
    orFailed db .cookie ((Kohaku.addDevice A db userId now token).map fun db =>
      (tokenText A.base64 token, db))
  | requestReset email now token =>
    orFailed db (fun _ => .queued)
      ((Kohaku.requestReset A db email now token).map fun db => ((), db))
  | resetPassword email now token => orFailed db .link (Kohaku.resetPassword A db email now token)
  | giveUp outboxId now => (.unit, Kohaku.giveUp Mail.kinds now db outboxId)
  | giveUpExpired now => (.unit, Kohaku.giveUpExpired Mail.kinds now db now)
  | linkForm token now => (.valid (tokenValid A db token now), db)
  | linkSubmit token password again salt now =>
    orFailed db .submitted (submitLink A db token password again salt now)
  | retention now => (.unit, retentionSignIn db now)

/-! ## The rows that retention deletes -/

/-- Retention deletes the session. -/
def SessionRow.expired (now : Time) (s : SessionRow) : Bool :=
  s.lastSeen ≤ now - idleSeconds || s.createdAt ≤ now - absoluteSeconds

/-- Retention deletes the device cookie. -/
def DeviceRow.expired (now : Time) (d : DeviceRow) : Bool := d.createdAt ≤ now - deviceSeconds

/-- Retention deletes the token. -/
def TokenRow.spent (now : Time) (t : TokenRow) : Bool :=
  t.purpose = .reset && (t.usedAt.isSome || t.expiresAt ≤ now)

/-- The row without its id. -/
def SessionRow.unnumbered (s : SessionRow) : SessionRow := { s with id := 0 }

/-- A device cookie but for its id, which depends on those deleted before. -/
def DeviceRow.unnumbered (d : DeviceRow) : DeviceRow := { d with id := 0 }

/-- The device cookies that have not expired. -/
def unexpired (db : Db) (now : Time) : List DeviceRow :=
  (db.knownDevices.rows.filter fun d => !d.expired now).map DeviceRow.unnumbered

/-- A step with all that is seen of it: its answer, and the unexpired devices that are left. -/
def Act.observe (A : App) (db : Db) (a : Act) : (Answer × List DeviceRow) × Db :=
  (((a.perform A db).1, unexpired (a.perform A db).2 a.time), (a.perform A db).2)

/-- A token drawn, 32 random bytes, is not that of a session that retention may delete: `UNIQUE`
would refuse the new row as long as such a row is stored. -/
def Db.NewSession (A : App) (db : Db) (now : Time) (token : Vector UInt8 32) : Prop :=
  ∀ s ∈ db.sessions.rows, s.expired now →
    s.tokenHash ≠ A.sha256 (asBytes (tokenText A.base64 token))

/-- So for a device cookie, -/
def Db.NewDevice (A : App) (db : Db) (now : Time) (token : Vector UInt8 32) : Prop :=
  ∀ d ∈ db.knownDevices.rows, d.expired now →
    d.tokenHash ≠ A.sha256 (asBytes (tokenText A.base64 token))

/-- and for a reset token. -/
def Db.NewToken (A : App) (db : Db) (now : Time) (token : Vector UInt8 32) : Prop :=
  ∀ t ∈ db.tokens.rows, t.spent now → t.tokenHash ≠ A.sha256 (asBytes (tokenText A.base64 token))

section
variable {A : App} {db : Db} {now : Time} {token : Vector UInt8 32}

instance : Decidable (db.NewSession A now token) :=
  inferInstanceAs (Decidable (∀ s ∈ db.sessions.rows, _))
instance : Decidable (db.NewDevice A now token) :=
  inferInstanceAs (Decidable (∀ d ∈ db.knownDevices.rows, _))
instance : Decidable (db.NewToken A now token) :=
  inferInstanceAs (Decidable (∀ t ∈ db.tokens.rows, _))

end

/-- The tokens that a step draws are new. -/
def Act.DrawsNew (A : App) (db : Db) : Act → Prop
  | .login _ _ _ _ now d => db.NewSession A now d.token ∧ db.NewDevice A now d.device
  | .addDevice _ now token => db.NewDevice A now token
  | .requestReset _ now token => db.NewToken A now token
  | .resetPassword _ now token => db.NewToken A now token
  | _ => True

instance (A : App) (db : Db) : (a : Act) → Decidable (a.DrawsNew A db)
  | .login _ _ _ _ now d =>
    inferInstanceAs (Decidable (db.NewSession A now d.token ∧ db.NewDevice A now d.device))
  | .addDevice _ now token => inferInstanceAs (Decidable (db.NewDevice A now token))
  | .requestReset _ now token => inferInstanceAs (Decidable (db.NewToken A now token))
  | .resetPassword _ now token => inferInstanceAs (Decidable (db.NewToken A now token))
  | .session .. => inferInstanceAs (Decidable True)
  | .isKnownDevice .. => inferInstanceAs (Decidable True)
  | .giveUp .. => inferInstanceAs (Decidable True)
  | .giveUpExpired .. => inferInstanceAs (Decidable True)
  | .linkForm .. => inferInstanceAs (Decidable True)
  | .linkSubmit .. => inferInstanceAs (Decidable True)
  | .retention .. => inferInstanceAs (Decidable True)

/-- So in every step of a run. -/
def DrawsNew (A : App) (db : Db) : List Act → Prop
  | [] => True
  | a :: as => a.DrawsNew A db ∧ DrawsNew A (a.perform A db).2 as

instance decidableDrawsNew (A : App) : (db : Db) → (as : List Act) → Decidable (DrawsNew A db as)
  | _, [] => inferInstanceAs (Decidable True)
  | db, a :: as =>
    have := decidableDrawsNew A (a.perform A db).2 as
    inferInstanceAs (Decidable (_ ∧ _))

/-- `db'` is `db` without some of the rows that have expired at `now`, up to row ids. -/
structure Db.Purged (now : Time) (db db' : Db) : Prop where
  users : db.users = db'.users
  recoveryCodes : db.recoveryCodes = db'.recoveryCodes
  outbox : db.outbox = db'.outbox
  auditLog : db.auditLog = db'.auditLog
  sessions : ∃ qs, Table.Purged SessionRow.unnumbered (fun _ _ => True)
    (fun s => s.expired now = true) db.sessions db'.sessions qs
  /-- A cookie that is gone is older than any that is left, since retention deletes by age. -/
  knownDevices : ∃ qs, Table.Purged DeviceRow.unnumbered (fun d k => d.createdAt < k.createdAt)
    (fun d => d.expired now = true) db.knownDevices db'.knownDevices qs
  /-- Token ids are never given again. -/
  tokens : ∃ qs, Table.Purged (fun t => t) (fun _ _ => True) (fun t => t.spent now = true)
    db.tokens.toTable db'.tokens.toTable qs
  seq : db.tokens.seq = db'.tokens.seq

variable {A : App} {db db' : Db} {now : Time}

theorem SessionRow.expired_mono {s : SessionRow} {now' : Time} (hle : now ≤ now')
    (h : s.expired now = true) : s.expired now' = true := by
  simp only [expired, Bool.or_eq_true, decide_eq_true_eq] at h ⊢
  grind

theorem DeviceRow.expired_mono {d : DeviceRow} {now' : Time} (hle : now ≤ now')
    (h : d.expired now = true) : d.expired now' = true := by
  simp only [expired, decide_eq_true_eq] at h ⊢
  grind

theorem TokenRow.spent_mono {t : TokenRow} {now' : Time} (hle : now ≤ now')
    (h : t.spent now = true) : t.spent now' = true := by
  simp only [spent, Bool.and_eq_true, Bool.or_eq_true, decide_eq_true_eq] at h ⊢
  grind

/-- The transactions are both rolled back, or return the same and leave databases that agree. -/
def Agree {α : Type} (now : Time) (x y : Option (α × Db)) : Prop :=
  Option.Rel (fun x y => x.1 = y.1 ∧ Db.Purged now x.2 y.2) x y

theorem rel_bind {α β γ δ : Type} {R : α → β → Prop} {S : γ → δ → Prop} {x : Option α}
    {y : Option β} {f : α → Option γ} {g : β → Option δ} (h : Option.Rel R x y)
    (hfg : ∀ {a b}, x = some a → R a b → Option.Rel S (f a) (g b)) :
    Option.Rel S (x.bind f) (y.bind g) := by
  cases h with
  | some hab => exact hfg rfl hab
  | none => exact .none

namespace Db.Purged

theorem refl (now : Time) (db : Db) : Db.Purged now db db :=
  ⟨rfl, rfl, rfl, rfl, ⟨_, .refl _ _ _ _⟩, ⟨_, .refl _ _ _ _⟩, ⟨_, .refl _ _ _ _⟩, rfl⟩

theorem mono {now' : Time} (h : Db.Purged now db db') (hle : now ≤ now') : Db.Purged now' db db' :=
  { h with
    sessions := h.sessions.imp fun _ hq => hq.weaken fun _ => SessionRow.expired_mono hle
    knownDevices := h.knownDevices.imp fun _ hq => hq.weaken fun _ => DeviceRow.expired_mono hle
    tokens := h.tokens.imp fun _ hq => hq.weaken fun _ => TokenRow.spent_mono hle }

/-- Retention on one side only. -/
theorem retention (h : Db.Purged now db db') : Db.Purged now db (retentionSignIn db' now) := by
  obtain ⟨ss, hs⟩ := h.sessions
  obtain ⟨ds, hd⟩ := h.knownDevices
  obtain ⟨ts, ht⟩ := h.tokens
  have hexpired : ∀ {d k : DeviceRow}, (d, some k) ∈ ds → d.expired now = k.expired now :=
    hd.congr (DeviceRow.expired now) fun _ => rfl
  refine { h with
    sessions := ⟨_, hs.purge ?_ fun _ _ _ _ => trivial⟩
    knownDevices := ⟨_, hd.purge ?_ ?_⟩
    tokens := ⟨_, ht.purge ?_ fun _ _ _ _ => trivial⟩ }
  · intro a b hab hb
    exact (hs.congr (SessionRow.expired now) (fun _ => rfl) hab).trans hb
  · intro a b hab hb
    exact (hexpired hab).trans hb
  · intro a b c d hab hcd hb hd
    have ha : a.expired now = true := (hexpired hab).trans hb
    have hc : c.expired now = false := (hexpired hcd).trans hd
    simp only [DeviceRow.expired, decide_eq_true_eq, decide_eq_false_iff_not] at ha hc
    grind
  · intro a b hab hb
    exact (ht.congr (TokenRow.spent now) (fun _ => rfl) hab).trans hb

/-! ### Sessions -/

theorem user? (h : Db.Purged now db db') (id : Nat) : db.user? id = db'.user? id :=
  congrArg (Table.get? · id) h.users

/-- Its use is recorded for the same session on both sides, whatever their ids. -/
theorem touch (h : Db.Purged now db db') {ss : List (SessionRow × Option SessionRow)}
    {s s' : SessionRow}
    (hs : Table.Purged SessionRow.unnumbered (fun _ _ => True) (fun s => s.expired now = true)
      db.sessions db'.sessions ss)
    (hss : (s, some s') ∈ ss) (hlive : s.expired now = false) :
    Db.Purged now (touch db s.id now) (touch db' s'.id now) := by
  refine { h with sessions := ⟨_, hs.update ?_ ?_ ?_ ?_ fun _ => trivial⟩ }
  · exact fun _ => rfl
  · exact fun _ => rfl
  · intro a b hab
    have hseen : a.lastSeen = b.lastSeen := hs.congr SessionRow.lastSeen (fun _ => rfl) hab
    refine ⟨?_, fun _ => ?_⟩
    · rw [hseen, decide_eq_decide.mpr (hs.id_eq_iff hab hss)]
    · exact hs.congr (fun s => { s.unnumbered with lastSeen := now }) (fun _ => rfl) hab
  · intro a ha hdead
    have hne : a.id ≠ s.id := by
      intro hid
      rw [Table.eq_of_key_eq ha (hs.mem_left hss) hid, hlive] at hdead
      cases hdead
    rw [if_neg (by simp [hne])]
    exact hdead

/-- The session that is found is the same, up to its id. -/
theorem currentRead (h : Db.Purged now db db') (hash : Bytes) :
    Option.Rel (fun x y => { x.1 with sessionId := 0 } = { y.1 with sessionId := 0 } ∧ x.2 = y.2 ∧
        Db.Purged now (Kohaku.touch db x.1.sessionId now) (Kohaku.touch db' y.1.sessionId now))
      (currentRead db hash now) (currentRead db' hash now) := by
  obtain ⟨ss, hs⟩ := h.sessions
  let valid (s : SessionRow) : Bool :=
    s.tokenHash = hash && s.lastSeen > now - idleSeconds && s.createdAt > now - absoluteSeconds
  have hlive : ∀ {s : SessionRow}, valid s = true → s.expired now = false := by
    intro s hs
    simp only [valid, Bool.and_eq_true, decide_eq_true_eq] at hs
    simp only [SessionRow.expired, Bool.or_eq_false_iff, decide_eq_false_iff_not]
    grind
  have hgone : ∀ {s : SessionRow}, (s, none) ∈ ss → valid s = false := by
    intro s hs'
    rw [← Bool.not_eq_true]
    intro hv
    exact absurd (hs.gone hs') (by simp [hlive hv])
  rw [Kohaku.currentRead, Kohaku.currentRead]
  rcases hs.find? (hs.congr valid fun _ => rfl) hgone with ⟨hx, hy⟩ | ⟨s, s', hss, hx, hy⟩
  · rw [hx, hy]
    exact .none
  · have htouch := h.touch hs hss (hlive (Table.of_find? hx))
    have huser : s.userId = s'.userId := hs.congr SessionRow.userId (fun _ => rfl) hss
    have hcsrf : s.csrfToken = s'.csrfToken := hs.congr SessionRow.csrfToken (fun _ => rfl) hss
    have hseen : s.lastSeen = s'.lastSeen := hs.congr SessionRow.lastSeen (fun _ => rfl) hss
    rw [hx, hy, Option.bind_eq_bind, Option.bind_some, Option.bind_eq_bind, Option.bind_some,
      huser, h.user?]
    cases db'.user? s'.userId with
    | none => exact .none
    | some u =>
      dsimp only [Option.bind_eq_bind, Option.bind_some]
      split
      · exact .some ⟨by rw [hcsrf], hseen, htouch⟩
      · exact .none

theorem current (h : Db.Purged now db db') (hash : Bytes) :
    (Kohaku.current db hash now).1.map (fun user => { user with sessionId := 0 }) =
      (Kohaku.current db' hash now).1.map (fun user => { user with sessionId := 0 }) ∧
    Db.Purged now (Kohaku.current db hash now).2 (Kohaku.current db' hash now).2 := by
  have hrel := h.currentRead hash
  rw [Kohaku.current, Kohaku.current]
  cases hx : Kohaku.currentRead db hash now with
  | none =>
    cases hy : Kohaku.currentRead db' hash now with
    | none => exact ⟨rfl, h⟩
    | some y => rw [hx, hy] at hrel; cases hrel
  | some x =>
    cases hy : Kohaku.currentRead db' hash now with
    | none => rw [hx, hy] at hrel; cases hrel
    | some y =>
      rw [hx, hy] at hrel
      cases hrel with
      | some hxy =>
        obtain ⟨huser, hseen, htouch⟩ := hxy
        dsimp only
        refine ⟨congrArg some huser, ?_⟩
        rw [hseen]
        split
        · exact htouch
        · exact h

/-- A new session; its token is not that of a row that is gone. -/
theorem createSession (h : Db.Purged now db db') {userId : Nat} {token csrf : Vector UInt8 32}
    (hnew : db.NewSession A now token) :
    Option.Rel (Db.Purged now) (createSession A db userId now token csrf)
      (createSession A db' userId now token csrf) := by
  obtain ⟨ss, hs⟩ := h.sessions
  let drawn (s : SessionRow) : Bool := s.tokenHash = A.sha256 (asBytes (tokenText A.base64 token))
  have hany : db.sessions.any drawn = db'.sessions.any drawn :=
    hs.any (hs.congr drawn fun _ => rfl) fun ha =>
      decide_eq_false (hnew _ (hs.mem_left ha) (hs.gone ha))
  rw [Kohaku.createSession, Kohaku.createSession, hany]
  split
  · exact .none
  · refine .some
      { h with sessions := ⟨_, hs.insertNew _ (fun _ => rfl) (fun _ _ => rfl) fun _ => trivial⟩ }

/-! ### Device cookies -/

theorem isKnownDevice (h : Db.Purged now db db') (userId : Nat) (hash : Bytes) :
    isKnownDevice db userId hash now = isKnownDevice db' userId hash now := by
  obtain ⟨ds, hd⟩ := h.knownDevices
  let known (d : DeviceRow) : Bool :=
    d.userId = userId && d.tokenHash = hash && d.createdAt > now - deviceSeconds
  refine hd.any (hd.congr known fun _ => rfl) fun hgone => ?_
  have hold := hd.gone hgone
  simp only [DeviceRow.expired, decide_eq_true_eq] at hold
  simp only [Bool.and_eq_false_iff, decide_eq_false_iff_not]
  grind

theorem unexpired (h : Db.Purged now db db') : unexpired db now = unexpired db' now := by
  obtain ⟨ds, hd⟩ := h.knownDevices
  let live (d : DeviceRow) : Bool := !d.expired now
  refine hd.map_strip (hd.congr live fun _ => rfl) fun hgone => ?_
  rw [hd.gone hgone]
  rfl

end Db.Purged

/-- The eviction takes the same rows on both sides: the rows before a row are the same, since those
that are gone are older, and the ids of the others are in the same order. -/
theorem purged_evictDevices {dead : DeviceRow → Prop} {t u : Table DeviceRow DeviceRow.id}
    {qs : List (DeviceRow × Option DeviceRow)}
    (h : Table.Purged DeviceRow.unnumbered (fun d k => d.createdAt < k.createdAt) dead t u qs)
    (userId : Nat) :
    ∃ qs, Table.Purged DeviceRow.unnumbered (fun d k => d.createdAt < k.createdAt) dead
      (evictDevices t userId) (evictDevices u userId) qs := by
  have hrank : ∀ {a b}, (a, some b) ∈ qs →
      rank newerFirst (devicesOf t userId) a = rank newerFirst (devicesOf u userId) b := by
    intro a b hab
    have htime : a.createdAt = b.createdAt := h.congr DeviceRow.createdAt (fun _ => rfl) hab
    rw [rank, rank, devicesOf, devicesOf, List.countP_filter, List.countP_filter]
    refine h.countP ?_ ?_
    · intro c d hcd
      have hnewer : newerFirst a c = newerFirst b d := by
        rw [Bool.eq_iff_iff, newerFirst_eq_true, newerFirst_eq_true, htime,
          h.congr DeviceRow.createdAt (fun _ => rfl) hcd, h.order hcd hab]
      rw [hnewer, h.congr DeviceRow.userId (fun _ => rfl) hcd]
    · intro c hgone
      have hnewer : newerFirst a c = true := newerFirst_eq_true.mpr (.inl (h.first hgone hab))
      rw [hnewer]
      rfl
  refine ⟨_, h.delete ?_⟩
  intro a b hab
  have huser : a.userId = b.userId := h.congr DeviceRow.userId (fun _ => rfl) hab
  have hevict : a ∈ evictDevices t userId ↔ b ∈ evictDevices u userId := by
    rw [mem_evictDevices_iff, mem_evictDevices_iff, huser, hrank hab,
      and_iff_right (h.mem_left hab), and_iff_right (h.mem_right hab)]
  rw [evictDevices, evictDevices, Table.mem_delete, Table.mem_delete,
    and_iff_right (h.mem_left hab), and_iff_right (h.mem_right hab)] at hevict
  rw [← Bool.not_inj_iff, Bool.eq_iff_iff, Bool.not_eq_true', Bool.not_eq_true']
  exact hevict

namespace Db.Purged

/-- A new device cookie; its token is not that of a row that is gone. -/
theorem addDevice (h : Db.Purged now db db') {userId : Nat} {token : Vector UInt8 32}
    (hnew : db.NewDevice A now token) :
    Option.Rel (Db.Purged now) (addDevice A db userId now token)
      (addDevice A db' userId now token) := by
  obtain ⟨ds, hd⟩ := h.knownDevices
  let drawn (d : DeviceRow) : Bool := d.tokenHash = A.sha256 (asBytes (tokenText A.base64 token))
  have hany : db.knownDevices.any drawn = db'.knownDevices.any drawn :=
    hd.any (hd.congr drawn fun _ => rfl) fun ha =>
      decide_eq_false (hnew _ (hd.mem_left ha) (hd.gone ha))
  rw [Kohaku.addDevice, Kohaku.addDevice, hany]
  split
  · exact .none
  · refine .some { h with
      knownDevices :=
        purged_evictDevices (hd.insertNew _ (fun _ => rfl) (fun _ _ => rfl) ?_) userId }
    intro d n hexpired
    have hold : d.createdAt ≤ now - deviceSeconds := of_decide_eq_true hexpired
    grind [deviceSeconds]

/-! ### Sign-in -/

theorem find (h : Db.Purged now db db') (l : Lookup) :
    Credentials.find db l = Credentials.find db' l := by
  cases l with
  | email => rw [Credentials.find, Credentials.find, h.users]
  | id => rw [Credentials.find, Credentials.find, h.user?]

theorem checkRead (h : Db.Purged now db db') (attempt : Attempt) :
    Credentials.checkRead A db attempt now = Credentials.checkRead A db' attempt now := by
  rw [Credentials.checkRead, Credentials.checkRead, h.find]
  simp only [h.isKnownDevice]

theorem afterFailure (h : Db.Purged now db db') (u : UserRow) (knownDevice : Bool) :
    Db.Purged now (Credentials.afterFailure A db u knownDevice now)
      (Credentials.afterFailure A db' u knownDevice now) :=
  { h with
    users := by simp only [Credentials.afterFailure, Db.updateUser, h.users]
    outbox := by simp only [Credentials.afterFailure, h.outbox] }

theorem codeAccepted (h : Db.Purged now db db') (userId : Nat) (seed : Bytes) (code : Str) :
    (Credentials.codeAccepted A db userId seed code now).1 =
      (Credentials.codeAccepted A db' userId seed code now).1 ∧
    Db.Purged now (Credentials.codeAccepted A db userId seed code now).2
      (Credentials.codeAccepted A db' userId seed code now).2 := by
  simp only [Credentials.codeAccepted]
  split
  · split
    · exact ⟨rfl, h⟩
    · exact ⟨by rw [h.users], { h with users := by dsimp only; rw [h.users] }⟩
  · split
    · simp only [Recovery.consume]
      exact ⟨by rw [h.recoveryCodes],
        { h with recoveryCodes := by dsimp only; rw [h.recoveryCodes] }⟩
    · exact ⟨rfl, h⟩

/-- A second factor is recorded with the account or the recovery codes. -/
theorem tables_secondFactor {account : Account} {code : Str} {ok : Bool}
    (h : Credentials.secondFactor A db account code now = some (ok, db')) :
    db'.sessions = db.sessions ∧ db'.knownDevices = db.knownDevices := by
  simp only [Credentials.secondFactor, Credentials.codeAccepted, Recovery.consume] at h
  grind

theorem secondFactor (h : Db.Purged now db db') (account : Account) (code : Str) :
    Agree now (Credentials.secondFactor A db account code now)
      (Credentials.secondFactor A db' account code now) := by
  simp only [Credentials.secondFactor]
  split
  · split
    · exact .none
    · exact .some ⟨rfl, h⟩
  · exact .some (h.codeAccepted ..)

theorem loginRun (h : Db.Purged now db db') {device : Option Bytes} {d : Draws} {account : Account}
    (hsession : db.NewSession A now d.token) (hdevice : db.NewDevice A now d.device) :
    Agree now (Work.loginRun A device d db account now)
      (Work.loginRun A device d db' account now) := by
  refine rel_bind (h.createSession hsession) ?_
  intro db₁ db₁' hcreate h₁
  simp only [h₁.isKnownDevice]
  split
  · exact .some ⟨rfl, h₁⟩
  · rw [createSession_eq_some hcreate] at h₁ ⊢
    refine rel_bind (h₁.addDevice hdevice) ?_
    intro db₂ db₂' _ h₂
    exact .some ⟨rfl, h₂⟩

theorem resetCounters (h : Db.Purged now db db') (id : Nat) :
    Db.Purged now (Credentials.resetCounters db id) (Credentials.resetCounters db' id) :=
  { h with users := by simp only [Credentials.resetCounters, Db.updateUser, h.users] }

/-- The deciding transaction, for success work that agrees on what it is run on. -/
theorem decide (h : Db.Purged now db db') {α : Type}
    {success : Db → Account → Time → Option (α × Db)} {id : Nat} {v : Verified}
    (hsuccess : ∀ {db₁ db₂ account}, db₁.sessions = db.sessions → db₁.knownDevices =
      db.knownDevices →
      Db.Purged now db₁ db₂ → Agree now (success db₁ account now) (success db₂ account now)) :
    Agree now (Credentials.decide A db id v now success)
      (Credentials.decide A db' id v now success) := by
  cases hu : db.user? id with
  | none =>
    rw [Credentials.decide_unknown hu, Credentials.decide_unknown (h.user? id ▸ hu)]
    exact .some ⟨rfl, h⟩
  | some u =>
    have hu' : db'.user? id = some u := h.user? id ▸ hu
    cases hb : u.blocked v.knownDevice now with
    | true =>
      rw [Credentials.decide_blocked hu hb, Credentials.decide_blocked hu' hb]
      exact .some ⟨rfl, h⟩
    | false =>
      rw [Credentials.decide_unblocked hu hb, Credentials.decide_unblocked hu' hb]
      split
      · exact .some ⟨rfl, h.afterFailure ..⟩
      have hfactor := h.secondFactor (A := A) u.toAccount v.code
      generalize hx : Credentials.secondFactor A db u.toAccount v.code now = x at hfactor ⊢
      generalize Credentials.secondFactor A db' u.toAccount v.code now = y at hfactor ⊢
      cases hfactor with
      | none => exact .some ⟨rfl, h⟩
      | @some x y hxy =>
        obtain ⟨ok, db₁⟩ := x
        obtain ⟨ok', db₁'⟩ := y
        obtain ⟨rfl, h₁⟩ := hxy
        cases ok with
        | false => exact .some ⟨rfl, h.afterFailure ..⟩
        | true =>
          obtain ⟨hsessions, hdevices⟩ := tables_secondFactor hx
          dsimp only
          rw [Option.map_eq_bind, Option.map_eq_bind]
          refine rel_bind (hsuccess hsessions hdevices (h₁.resetCounters id)) ?_
          intro a b _ hab
          exact .some ⟨congrArg Outcome.success hab.1, hab.2⟩

theorem login (h : Db.Purged now db db') {email password code : Str}
    {device : Option Bytes} {d : Draws}
    (hsession : db.NewSession A now d.token) (hdevice : db.NewDevice A now d.device) :
    Agree now (login A db email password code device now d)
      (login A db' email password code device now d) := by
  rw [Kohaku.login, Kohaku.login, h.checkRead]
  split
  · exact .some ⟨rfl, h⟩
  · refine h.decide ?_
    intro db₁ db₂ account hsessions hdevices h₁
    refine h₁.loginRun ?_ ?_
    · rwa [Db.NewSession, hsessions]
    · rwa [Db.NewDevice, hdevices]

/-! ### Reset tokens -/

/-- Tokens that are used are spent. -/
theorem useTokens (h : Db.Purged now db db') {p : TokenRow → Bool} (usedAt : Time)
    (hp : ∀ t, p t = true → t.purpose = .reset) :
    Db.Purged now
      { db with
        tokens := db.tokens.update p (fun t => { t with usedAt := some usedAt })
          (TokenRow.id_used usedAt) }
      { db' with
        tokens := db'.tokens.update p (fun t => { t with usedAt := some usedAt })
          (TokenRow.id_used usedAt) } := by
  obtain ⟨ts, ht⟩ := h.tokens
  refine { h with tokens := ⟨_, ht.update ?_ ?_ ?_ ?_ fun _ => trivial⟩ }
  · exact TokenRow.id_used usedAt
  · exact TokenRow.id_used usedAt
  · intro a b hab
    rw [ht.same hab]
    exact ⟨rfl, fun _ => rfl⟩
  · intro a _ hspent
    split
    next hpa => simp [TokenRow.spent, hp a hpa]
    next => exact hspent

theorem useResetTokens (h : Db.Purged now db db') (userId : Nat) (usedAt : Time) :
    Db.Purged now (Mail.useResetTokens db userId usedAt) (Mail.useResetTokens db' userId usedAt) :=
  h.useTokens _ fun _ ht => (Mail.unusedReset_eq_true.mp ht).2.1

theorem enqueue (h : Db.Purged now db db') (mail : NewMail) (queuedAt : Time) :
    Option.Rel (Db.Purged now) (enqueue A.addressParses db mail queuedAt)
      (enqueue A.addressParses db' mail queuedAt) := by
  have hnew : ∀ userId address, Db.Purged now
      { db with outbox := db.outbox.insertNew (mail.row queuedAt userId address) }
      { db' with outbox := db'.outbox.insertNew (mail.row queuedAt userId address) } :=
    fun userId address => { h with outbox := by dsimp only; rw [h.outbox] }
  simp only [Kohaku.enqueue]
  split
  · split
    · exact .some (hnew _ _)
    · exact .none
  · exact .some (hnew _ _)

theorem audit (h : Db.Purged now db db') (actor : Actor) (action : Action) (target : Target)
    (time : Time) :
    Db.Purged now (db.audit actor action target time) (db'.audit actor action target time) :=
  { h with auditLog := congrArg (· ++ _) h.auditLog }

/-- A new token; it is not that of a row that is gone. -/
theorem issueResetToken (h : Db.Purged now db db') {userId : Nat} {token : Vector UInt8 32}
    (hnew : db.NewToken A now token) :
    Agree now (issueResetToken A db userId now token) (issueResetToken A db' userId now token) := by
  have hused := h.useResetTokens userId now
  obtain ⟨ts, ht⟩ := h.tokens
  let drawn (t : TokenRow) : Bool := t.tokenHash = A.sha256 (asBytes (tokenText A.base64 token))
  have hany : (Mail.useResetTokens db userId now).tokens.any drawn =
      (Mail.useResetTokens db' userId now).tokens.any drawn := by
    have hkept : ∀ t : TokenRow, drawn { t with usedAt := some now } = drawn t := fun _ => rfl
    change (db.tokens.toTable.update _ _).any drawn = (db'.tokens.toTable.update _ _).any drawn
    rw [Table.any_update hkept, Table.any_update hkept]
    exact ht.any (ht.congr drawn fun _ => rfl) fun ha =>
      decide_eq_false (hnew _ (ht.mem_left ha) (ht.gone ha))
  simp only [Kohaku.issueResetToken]
  rw [hany]
  split
  · exact .none
  · obtain ⟨us, hu⟩ := hused.tokens
    exact .some ⟨rfl, { hused with
      tokens := ⟨_, hu.insertAuto hused.seq _ (fun _ => rfl) fun _ => trivial⟩
      seq := congrArg (· + 1) hused.seq }⟩

theorem queueReset (h : Db.Purged now db db') {email : Str} {token : Vector UInt8 32}
    (hnew : db.NewToken A now token) :
    Option.Rel (Db.Purged now) (queueReset A db email now token)
      (queueReset A db' email now token) := by
  have hid : resettable db email = resettable db' email := by rw [resettable, resettable, h.users]
  rw [Kohaku.queueReset, Kohaku.queueReset, hid]
  split
  · refine rel_bind (h.issueResetToken hnew) ?_
    intro a b _ hab
    obtain ⟨link, db₁⟩ := a
    obtain ⟨link', db₁'⟩ := b
    obtain ⟨rfl, h₁⟩ := hab
    exact h₁.enqueue _ now
  · refine (h.useTokens _ ?_).enqueue _ now
    intro t ht
    simp only [Bool.and_eq_true, decide_eq_true_eq] at ht
    exact ht.1.2

theorem resetPassword (h : Db.Purged now db db') {email : Str} {token : Vector UInt8 32}
    (hnew : db.NewToken A now token) :
    Agree now (resetPassword A db email now token) (resetPassword A db' email now token) := by
  have hid : accountOf db email = accountOf db' email := by rw [accountOf, accountOf, h.users]
  rw [Kohaku.resetPassword, Kohaku.resetPassword, hid]
  cases accountOf db' email with
  | none => exact .none
  | some id =>
    rw [Option.bind_eq_bind, Option.bind_some, Option.bind_eq_bind, Option.bind_some]
    refine rel_bind (h.issueResetToken hnew) ?_
    intro a b _ hab
    exact .some ⟨hab.1, hab.2.audit ..⟩

theorem expireResetToken (h : Db.Purged now db db') (id : Nat) (unixepoch : Time) :
    Db.Purged now (Mail.expireResetToken unixepoch db id)
      (Mail.expireResetToken unixepoch db' id) := by
  rw [Mail.expireResetToken, Mail.expireResetToken, h.outbox]
  split
  · exact h.useResetTokens ..
  · exact h

theorem giveUp (h : Db.Purged now db db') (id : Nat) (unixepoch : Time) :
    Db.Purged now (giveUp Mail.kinds unixepoch db id) (giveUp Mail.kinds unixepoch db' id) := by
  -- the outbox is the same on both sides, before and after the action
  have hmark : ∀ {db₁ db₂ : Db} {row : OutboxRow}, Db.Purged now db₁ db₂ → Db.Purged now
      (if row.token then { db₁ with outbox := db₁.outbox.delete fun r => r.id = id }
        else { db₁ with
          outbox := db₁.outbox.update (fun r => r.id = id && r.unsent)
            fun r => { r with outcome := some .givenUp } })
      (if row.token then { db₂ with outbox := db₂.outbox.delete fun r => r.id = id }
        else { db₂ with
          outbox := db₂.outbox.update (fun r => r.id = id && r.unsent)
            fun r => { r with outcome := some .givenUp } }) := by
    intro db₁ db₂ row h₁
    split
    · exact { h₁ with outbox := by dsimp only; rw [h₁.outbox] }
    · exact { h₁ with outbox := by dsimp only; rw [h₁.outbox] }
  rw [Kohaku.giveUp, Kohaku.giveUp, h.outbox]
  split
  · exact h
  next row _ =>
    refine hmark ?_
    cases haction : (findKind Mail.kinds row.kind).bind MailKind.giveUp with
    | none => exact h
    | some action =>
      rw [(Mail.giveUp_of_findKind haction).2]
      exact h.expireResetToken id unixepoch

theorem giveUpExpired (h : Db.Purged now db db') (time unixepoch : Time) :
    Db.Purged now (giveUpExpired Mail.kinds unixepoch db time)
      (giveUpExpired Mail.kinds unixepoch db' time) := by
  have hids : expiredIds db time = expiredIds db' time := by rw [expiredIds, expiredIds, h.outbox]
  rw [Kohaku.giveUpExpired, Kohaku.giveUpExpired, hids]
  clear hids
  generalize expiredIds db' time = ids
  induction ids generalizing db db' with
  | nil => exact h
  | cons id ids ih => exact ih (h.giveUp id unixepoch)

theorem acceptable (h : Db.Purged now db db') (hash : Bytes) (time : Time) :
    acceptable db hash time = acceptable db' hash time := by
  funext t
  simp only [Kohaku.acceptable, h.user?]

/-- The tokens that may be consumed are the same rows on both sides. -/
theorem filter_acceptable (h : Db.Purged now db db') (hash : Bytes) :
    db.tokens.rows.filter (Kohaku.acceptable db' hash now) =
      db'.tokens.rows.filter (Kohaku.acceptable db' hash now) := by
  obtain ⟨ts, ht⟩ := h.tokens
  have hfilter := ht.map_strip (ht.congr (Kohaku.acceptable db' hash now) fun _ => rfl)
    fun {t} hgone => ?_
  · simpa only [List.map_id'] using hfilter
  · have hspent := ht.gone hgone
    rw [← Bool.not_eq_true, acceptable_eq_true]
    rintro ⟨-, -, hused, hexpires, -⟩
    simp only [TokenRow.spent, hused, Bool.and_eq_true, Bool.or_eq_true, decide_eq_true_eq]
      at hspent
    grind

theorem tokenValid (h : Db.Purged now db db') (token : Str) :
    tokenValid A db token now = tokenValid A db' token now := by
  have hany : ∀ (rows : List TokenRow) (p : TokenRow → Bool), rows.any p =
      !(rows.filter p).isEmpty := by
    intro rows p
    rw [Bool.eq_iff_iff, Bool.not_eq_true', List.isEmpty_eq_false_iff, List.any_eq_true, Ne,
      List.filter_eq_nil_iff]
    push Not
    rfl
  rw [Kohaku.tokenValid, Kohaku.tokenValid, h.acceptable, Table.any, Table.any, hany,
    h.filter_acceptable, ← hany]

theorem setPassword (h : Db.Purged now db db') (userId : Nat) (hash : Str) :
    Option.Rel (Db.Purged now) (setPassword A db userId hash now)
      (setPassword A db' userId hash now) := by
  obtain ⟨ss, hs⟩ := h.sessions
  obtain ⟨ds, hd⟩ := h.knownDevices
  have hended : Db.Purged now
      (endAll (db.updateUser userId fun u => { u with passwordHash := some hash }) userId)
      (endAll (db'.updateUser userId fun u => { u with passwordHash := some hash }) userId) :=
    { h with
      users := by simp only [endAll, Db.updateUser, h.users]
      sessions :=
        ⟨_, hs.delete (hs.congr (fun s => Decidable.decide (s.userId = userId)) fun _ => rfl)⟩
      knownDevices :=
        ⟨_, hd.delete (hd.congr (fun d => Decidable.decide (d.userId = userId)) fun _ => rfl)⟩ }
  exact (hended.useResetTokens userId now).enqueue (A := A) (passwordChangedMail A userId now) now

theorem linkSubmit (h : Db.Purged now db db') (tokenHash : Bytes) (hash : Str) :
    Agree now (linkSubmit A db tokenHash hash now) (linkSubmit A db' tokenHash hash now) := by
  simp only [Kohaku.linkSubmit]
  rw [h.acceptable, h.filter_acceptable]
  split
  · exact .some ⟨rfl, h⟩
  next t ht =>
    cases t.userId with
    | none => exact .none
    | some id =>
      rw [Option.bind_eq_bind, Option.bind_some, Option.bind_eq_bind, Option.bind_some, h.user?]
      cases db'.user? id with
      | none => exact .none
      | some u =>
        rw [Option.bind_some, Option.bind_some]
        have hused := h.useTokens (p := Kohaku.acceptable db' tokenHash now) now
          fun t ht => (acceptable_eq_true.mp ht).2.1
        refine rel_bind (hused.setPassword id hash) ?_
        intro a b _ hab
        exact .some ⟨rfl, hab.audit ..⟩
  · exact .none

theorem submitLink (h : Db.Purged now db db') (token password again : Str) (salt : Bytes) :
    Agree now (submitLink A db token password again salt now)
      (submitLink A db' token password again salt now) := by
  rw [Kohaku.submitLink, Kohaku.submitLink, h.tokenValid]
  split
  · split
    · exact .some ⟨rfl, h⟩
    · split
      · exact .some ⟨rfl, h⟩
      · rw [Option.map_eq_bind, Option.map_eq_bind]
        refine rel_bind (h.linkSubmit _ _) ?_
        intro a b _ hab
        exact .some ⟨congrArg (fun consumed : Bool => if consumed then LinkAnswer.done
          else .invalid) hab.1, hab.2⟩
  · exact .some ⟨rfl, h⟩

end Db.Purged

/-! ## Runs -/

theorem Agree.orFailed {α : Type} {x y : Option (α × Db)} (hxy : Agree now x y)
    (h : Db.Purged now db db') (answer : α → Answer) :
    (orFailed db answer x).1 = (orFailed db' answer y).1 ∧
      Db.Purged now (orFailed db answer x).2 (orFailed db' answer y).2 := by
  cases hxy with
  | some hab => exact ⟨congrArg answer hab.1, hab.2⟩
  | none => exact ⟨rfl, h⟩

/-- A transaction without a result of its own. -/
theorem agree_map {α : Type} {x y : Option Db} (h : Option.Rel (Db.Purged now) x y) (a : α) :
    Agree now (x.map fun db => (a, db)) (y.map fun db => (a, db)) := by
  cases h with
  | some hab => exact .some ⟨rfl, hab⟩
  | none => exact .none

/-- One step answers alike on both sides. -/
theorem Act.perform_agree {a : Act} (ha : a.isRetention = false) (h : Db.Purged a.time db db')
    (hnew : a.DrawsNew A db) :
    (a.perform A db).1 = (a.perform A db').1 ∧
      Db.Purged a.time (a.perform A db).2 (a.perform A db').2 := by
  cases a with
  | login => exact (h.login hnew.1 hnew.2).orFailed h _
  | session hash =>
    obtain ⟨huser, hdb⟩ := h.current hash
    exact ⟨congrArg Answer.session huser, hdb⟩
  | isKnownDevice userId hash => exact ⟨congrArg Answer.known (h.isKnownDevice userId hash), h⟩
  | addDevice userId now token =>
    exact (agree_map (h.addDevice hnew) (tokenText A.base64 token)).orFailed h _
  | requestReset email now token =>
    refine Agree.orFailed (agree_map ?_ ()) h _
    rw [Kohaku.requestReset, Kohaku.requestReset]
    split
    · exact h.queueReset hnew
    · exact .some h
  | resetPassword => exact (h.resetPassword hnew).orFailed h _
  | giveUp outboxId now => exact ⟨rfl, h.giveUp outboxId now⟩
  | giveUpExpired now => exact ⟨rfl, h.giveUpExpired now now⟩
  | linkForm token => exact ⟨congrArg Answer.valid (h.tokenValid token), h⟩
  | linkSubmit token password again salt =>
    exact (h.submitLink token password again salt).orFailed h _
  | retention now => cases ha

/-- **Retention of sign-in state is not observed.** `acts` is a run with retention inserted at any
points, with times that do not go back. Without the retention every other step gives the same answer
and leaves the same unexpired device cookies. No random token that is drawn is that of a row already
due for retention. -/
theorem retention_unobservable (A : App) (db : Db) (acts : List Act)
    (hclock : acts.Pairwise fun a b => a.time ≤ b.time)
    (hnew : DrawsNew A db (acts.filter fun a => !a.isRetention)) :
    Mealy.outputs (Act.observe A) db (acts.filter fun a => !a.isRetention) =
      Mealy.kept (fun a => !a.isRetention) (Act.observe A) db acts := by
  refine Mealy.outputs_filter (fun acts db db' => (∀ a ∈ acts, Db.Purged a.time db db') ∧
    (acts.Pairwise fun a b => a.time ≤ b.time) ∧
    DrawsNew A db (acts.filter fun a => !a.isRetention))
    ⟨fun _ _ => .refl _ _, hclock, hnew⟩ ?_ ?_
  · intro a as db db' hR ha
    obtain ⟨hpurged, hclock, hnew⟩ := hR
    obtain ⟨hle, hclock⟩ := List.pairwise_cons.mp hclock
    rw [List.filter_cons_of_neg (by simp [ha])] at hnew
    refine ⟨fun b hb => ?_, hclock, hnew⟩
    have h := hpurged a List.mem_cons_self
    cases a with
    | retention now => exact h.retention.mono (hle b hb)
    | _ => cases ha
  · intro a as db db' hR ha
    obtain ⟨hpurged, hclock, hnew⟩ := hR
    obtain ⟨hle, hclock⟩ := List.pairwise_cons.mp hclock
    rw [List.filter_cons_of_pos (p := fun a : Act => !a.isRetention) ha] at hnew
    obtain ⟨hanswer, hdb⟩ :=
      Act.perform_agree (Bool.not_eq_true' _ ▸ ha) (hpurged a List.mem_cons_self) hnew.1
    refine ⟨?_, fun b hb => hdb.mono (hle b hb), hclock, hnew.2⟩
    exact Prod.ext hanswer hdb.unexpired

/-! ## A run over more than a year -/

namespace Purging

def email : Str := "maintainer@kohaku.test".toList

def password : Str := "the password".toList

def start : Db :=
  (World.start ⟨[UserRow.sample 1 email password .maintainer none], List.nodup_singleton _⟩).db

/-- Two sign-ins a year apart, and a reset link that is asked for twice. After the first hour of the
second year the first session, its device cookie and the first reset token are all due for
retention. -/
def acts : List Act :=
  let year := deviceSeconds
  let cookie := some (asBytes (tokenText App.sample.base64 (Vector.replicate 32 1)))
  [.login email password [] none 0 (Draws.sample 1), .requestReset email 10 (Vector.replicate 32 3),
    .retention 20, .requestReset email (year - 5) (Vector.replicate 32 4), .retention year,
    .login email password [] cookie (year + 5) (Draws.sample 2),
    .session (asBytes (tokenText App.sample.base64 (Vector.replicate 32 1))) (year + 10),
    .retention (year + 10),
    .session (asBytes (tokenText App.sample.base64 (Vector.replicate 32 2))) (year + 400),
    .linkSubmit (tokenText App.sample.base64 (Vector.replicate 32 4)) "another password".toList
      "another password".toList [] (year + 500)]

end Purging

open Purging in
theorem retention_unobservable_year :
    Mealy.outputs (Act.observe App.sample) start (acts.filter fun a => !a.isRetention) =
      Mealy.kept (fun a => !a.isRetention) (Act.observe App.sample) start acts ∧
    (Mealy.final (Act.observe App.sample) start
      (acts.filter fun a => !a.isRetention)).tokens.rows.length = 2 ∧
    (Mealy.final (Act.observe App.sample) start acts).tokens.rows.length = 1 :=
  ⟨retention_unobservable App.sample start acts (by decide)
    (by decide), by decide, by decide⟩

end Kohaku
