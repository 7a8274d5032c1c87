import Kohaku.Admin.Reset
import Kohaku.Jobs
import Kohaku.Lts.Exec

/-!
# The server as a transition system

Every step of the server does work of its own (a read on a reader connection, a password hash)
and runs at most one write transaction; the single writer makes transactions atomic. A request
that needs several of them is kept in `World.requests` between its steps, with exactly the values
its handler carries from one to the next, so a run of `step` is an interleaving of any number of
requests, commands, outbox attempts and retention runs.

Clock readings and random draws are part of the labels. The rate limits and permits of
`limits/` only refuse requests; a refused request is one that does not occur or `finish`es.
-/

namespace Kohaku

open Sql

/-! ## Requests in progress -/

/-- What the session layer hands to the handler, with the token hash the request presented. -/
structure Signed where
  tokenHash : Bytes
  user : SessionUser
  deriving DecidableEq

/-- A check between its read and its transaction. -/
structure Checking where
  attempt : Attempt
  now : Time
  accountId : Nat
  verified : Verified
  deriving DecidableEq

/-- Where a request in progress is between its read and its transaction. -/
inductive Stage
  /-- `current` found the session and has to record its use. -/
  | touching (s : Signed) (now : Time)
  /-- The session layer has read the session, the handler has not run. -/
  | handler (s : Signed)
  /-- `check` has verified the password; `s` is absent for a login. -/
  | checking (s : Option Signed) (c : Checking) (work : Work)
  /-- `link_submit` has found the token valid and hashed the new password. -/
  | linking (tokenHash : Bytes) (hash : Str)
  deriving DecidableEq

/-- A request in progress. -/
structure Request where
  rid : Nat
  stage : Stage
  deriving DecidableEq

/-! ## Write transactions -/

/-- The write transactions. -/
inductive Tx
  | touch (sessionId : Nat) (now : Time)
  | logout (sessionId : Nat)
  | confirmTotp (user : SessionUser) (code : Str) (now : Time) (d : Draws)
  | endOtherSessions (user : SessionUser) (now : Time)
  | decide (c : Checking) (work : Work) (d : Draws)
  | queueReset (email : Str) (now : Time) (token : Vector UInt8 32)
  | linkSubmit (tokenHash : Bytes) (hash : Str) (now : Time)
  | unlock (email : Str) (now : Time)
  | resetPassword (email : Str) (now : Time) (token : Vector UInt8 32)
  | pick (now unixepoch : Time)
  | record (id : Nat) (outcome : Delivery) (endedAt unixepoch : Time)
  | retentionOutbox (now unixepoch : Time)
  | retentionAudit (now : Time)
  | retentionSignIn (now : Time)
  /-- No code of the repository writes `disabled`; the operator may. -/
  | setDisabled (userId : Nat) (disabled : Bool)
  deriving DecidableEq

/-- What a transaction returns to the code that ran it. -/
inductive Result
  | unit
  | outcome (o : Outcome Value)
  | confirmed (c : Confirmed)
  | linked (consumed : Bool)
  | link (link : Str)
  | picked (p : Pick)
  deriving DecidableEq

/-- The transaction on the database; `none` when it is rolled back. -/
def Tx.run (A : App) (db : Db) : Tx → Option (Result × Db)
  | touch sessionId now => some (.unit, Kohaku.touch db sessionId now)
  | logout sessionId => some (.unit, Kohaku.logout db sessionId)
  | confirmTotp user code now d =>
    (Kohaku.confirmTotp A db user code now d).map fun (r, db) => (.confirmed r, db)
  | endOtherSessions user now => some (.unit, Kohaku.endOtherSessions db user now)
  | decide c work d =>
    (Credentials.decide A db c.accountId c.verified c.now
      fun db account now => work.run A d db account now).map fun (o, db) => (.outcome o, db)
  | queueReset email now token => (Kohaku.queueReset A db email now token).map fun db => (.unit, db)
  | linkSubmit tokenHash hash now =>
    (Kohaku.linkSubmit A db tokenHash hash now).map fun (b, db) => (.linked b, db)
  | unlock email now => (Kohaku.unlock db email now).map fun db => (.unit, db)
  | resetPassword email now token =>
    (Kohaku.resetPassword A db email now token).map fun (l, db) => (.link l, db)
  | pick now unixepoch =>
    (Kohaku.pick Mail.kinds unixepoch db now).map fun (p, db) => (.picked p, db)
  | record id outcome endedAt unixepoch =>
    some (.unit, Kohaku.record Mail.kinds unixepoch db id outcome endedAt)
  | retentionOutbox now unixepoch =>
    some (.unit, Kohaku.retentionOutbox Mail.kinds unixepoch db now)
  | retentionAudit now => some (.unit, Kohaku.retentionAudit db now)
  | retentionSignIn now => some (.unit, Kohaku.retentionSignIn db now)
  | setDisabled userId disabled =>
    some (.unit, db.updateUser userId fun u => { u with disabled := disabled })

/-! ## Steps -/

/-- The forms of the signed-in handlers. A re-authenticated one carries the current password and
the code; the salt of a new password's hash is drawn before the check. -/
inductive Form
  | logout
  | password (current code new again : Str) (salt : Bytes)
  | startTotp (current code : Str)
  | confirmTotp (code : Str)
  | disableTotp (current code : Str)
  | regenerateCodes (current code : Str)
  | endOthers

/-- What happens next: a request goes one step further, or a command or a job runs. -/
inductive Label
  /-- `POST /admin/login` up to the deciding transaction. -/
  | login (rid : Nat) (email password code : Str) (device : Option Bytes) (now : Time)
  /-- The read of `current`, in the session layer and in `GET /admin/login`. -/
  | current (rid : Nat) (tokenHash : Bytes) (now : Time)
  /-- The write of `current`. -/
  | touch (rid : Nat)
  /-- The CSRF check and the handler, up to its transaction or the one of its check. -/
  | post (rid : Nat) (csrf : Bytes) (form : Form) (device : Option Bytes) (now : Time) (d : Draws)
  /-- The deciding transaction of a check. -/
  | decide (rid : Nat) (d : Draws)
  /-- The request ends without a further transaction: a page was shown, no permit was free, the
  connection was lost. -/
  | finish (rid : Nat)
  | requestReset (email : Str) (now : Time) (token : Vector UInt8 32)
  | linkForm (token : Str) (now : Time)
  /-- `POST /admin/reset/{token}` up to its transaction. -/
  | linkRead (rid : Nat) (token password again : Str) (salt : Bytes) (now : Time)
  | linkSubmit (rid : Nat) (now : Time)
  | unlock (email : Str) (now : Time)
  | resetPassword (email : Str) (now : Time) (token : Vector UInt8 32)
  | pick (now unixepoch : Time)
  | record (outcome : Delivery) (endedAt unixepoch : Time)
  /-- The worker stops during an attempt. -/
  | dropAttempt
  | retentionOutbox (now unixepoch : Time)
  | retentionAudit (now : Time)
  | retentionSignIn (now : Time)
  | setDisabled (userId : Nat) (disabled : Bool)

/-- The database, the requests in progress and the mail being attempted. -/
structure World where
  db : Db
  /-- Requests are numbered as they arrive; numbers may be skipped but not used again. -/
  requests : AutoTable Request Request.rid
  /-- The outbox row being attempted. -/
  attempting : Option Nat

/-- What a step does: the transaction it runs, if any, and the requests afterwards. -/
structure Plan where
  tx : Option Tx
  requests : AutoTable Request Request.rid

namespace World

/-- A request arrives and, unless it is answered at once, is kept at `stage`. -/
def arrive (w : World) (rid : Nat) (stage : Option Stage) : Option Plan :=
  if h : w.requests.seq < rid then
    match stage with
    | some stage => some ⟨none, w.requests.insertAt ⟨rid, stage⟩ h⟩
    | none => some ⟨none, w.requests.skipTo rid h.le⟩
  else none

/-- The request is answered, after `tx` if there is one. -/
def answer (w : World) (rid : Nat) (tx : Option Tx) : Plan :=
  ⟨tx, w.requests.delete fun r => r.rid = rid⟩

/-- The request goes on at `stage`, after `tx` if there is one. -/
def advance (w : World) (rid : Nat) (stage : Stage) (tx : Option Tx) : Plan :=
  ⟨tx, w.requests.update (fun r => r.rid = rid) fun r => { r with stage }⟩

/-- The read of a re-authentication, with the success work of the handler. -/
def reauth (A : App) (w : World) (rid : Nat) (s : Signed) (current code : Str)
    (device : Option Bytes) (now : Time) (work : Work) : Plan :=
  let attempt := ⟨.id s.user.userId, current, code, device⟩
  match Credentials.checkRead A w.db attempt now with
  | none => w.answer rid none
  | some (accountId, verified) =>
    w.advance rid (.checking (some s) ⟨attempt, now, accountId, verified⟩ work) none

/-- The signed-in handlers. -/
def handle (A : App) (w : World) (rid : Nat) (s : Signed) (device : Option Bytes) (now : Time)
    (d : Draws) : Form → Plan
  | .logout => w.answer rid (some (.logout s.user.sessionId))
  | .password current code new again salt =>
    match checkPasswordRule new with
    | .error _ => w.answer rid none
    | .ok () =>
      if new ≠ again then w.answer rid none
      else
        w.reauth A rid s current code device now (.changePassword (A.hashPassword new salt))
  | .startTotp current code =>
    w.reauth A rid s current code device now (.startTotp s.user.sessionId)
  | .confirmTotp code => w.answer rid (some (.confirmTotp s.user code now d))
  | .disableTotp current code =>
    if s.user.role.requiresTwoFactor then w.answer rid none
    else w.reauth A rid s current code device now .disableTotp
  | .regenerateCodes current code =>
    if !s.user.totpEnrolled then w.answer rid none
    else w.reauth A rid s current code device now .regenerateCodes
  | .endOthers => w.answer rid (some (.endOtherSessions s.user now))

/-- The stage of a request in progress. -/
def stage? (w : World) (rid : Nat) : Option Stage := (w.requests.get? rid).map Request.stage

/-- What a step does; `none` when it is not enabled. -/
def plan (A : App) (w : World) : Label → Option Plan
  | .login rid email password code device now =>
    let attempt := ⟨.email (normalizeEmail email), password, code, device⟩
    w.arrive rid <| (Credentials.checkRead A w.db attempt now).map fun (accountId, verified) =>
      .checking none ⟨attempt, now, accountId, verified⟩ (.login device)
  | .current rid tokenHash now =>
    w.arrive rid <| (currentRead w.db tokenHash now).map fun (user, lastSeen) =>
      if now - lastSeen ≥ touchSeconds then .touching ⟨tokenHash, user⟩ now
      else .handler ⟨tokenHash, user⟩
  | .touch rid =>
    match w.stage? rid with
    | some (.touching s now) =>
      some (w.advance rid (.handler s) (some (.touch s.user.sessionId now)))
    | _ => none
  | .post rid csrf form device now d =>
    match w.stage? rid with
    | some (.handler s) =>
      if ctEq csrf s.user.csrf then some (w.handle A rid s device now d form)
      else some (w.answer rid none)
    | _ => none
  | .decide rid d =>
    match w.stage? rid with
    | some (.checking _ c work) => some (w.answer rid (some (.decide c work d)))
    | _ => none
  | .finish rid => some (w.answer rid none)
  | .requestReset email now token =>
    let email := normalizeEmail email
    some ⟨if validEmail A email then some (.queueReset email now token) else none, w.requests⟩
  | .linkForm _ _ => some ⟨none, w.requests⟩
  | .linkRead rid token password again salt now =>
    w.arrive rid <|
      if !tokenValid A w.db token now then none
      else
        match checkPasswordRule password with
        | .error _ => none
        | .ok () =>
          if password ≠ again then none
          else some (.linking (A.sha256 (asBytes token)) (A.hashPassword password salt))
  | .linkSubmit rid now =>
    match w.stage? rid with
    | some (.linking tokenHash hash) => some (w.answer rid (some (.linkSubmit tokenHash hash now)))
    | _ => none
  | .unlock email now => some ⟨some (.unlock email now), w.requests⟩
  | .resetPassword email now token => some ⟨some (.resetPassword email now token), w.requests⟩
  | .pick now unixepoch =>
    if w.attempting = none then some ⟨some (.pick now unixepoch), w.requests⟩ else none
  | .record outcome endedAt unixepoch =>
    w.attempting.map fun id => ⟨some (.record id outcome endedAt unixepoch), w.requests⟩
  | .dropAttempt => some ⟨none, w.requests⟩
  | .retentionOutbox now unixepoch => some ⟨some (.retentionOutbox now unixepoch), w.requests⟩
  | .retentionAudit now => some ⟨some (.retentionAudit now), w.requests⟩
  | .retentionSignIn now => some ⟨some (.retentionSignIn now), w.requests⟩
  | .setDisabled userId disabled => some ⟨some (.setDisabled userId disabled), w.requests⟩

/-- The row the worker attempts after a step. -/
def attemptAfter (w : World) (l : Label) (r : Option Result) : Option Nat :=
  match l, r with
  | .pick .., some (.picked (.due row)) => some row.id
  | .record .., _ => none
  | .dropAttempt, _ => none
  | _, _ => w.attempting

/-- The world after a plan; a transaction that fails changes nothing. -/
def after (A : App) (w : World) (l : Label) (p : Plan) : World :=
  match p.tx.bind fun tx => tx.run A w.db with
  | some (r, db) => ⟨db, p.requests, w.attemptAfter l (some r)⟩
  | none => ⟨w.db, p.requests, w.attemptAfter l none⟩

/-- The step that a label plans, with its transaction. -/
def step (A : App) (w : World) (l : Label) : Option World := (w.plan A l).map (w.after A l)

/-- A run: from `w₀` the steps of the history `h` lead to `w`. -/
abbrev Run (A : App) (w₀ : World) (h : List (Lts.Step World Label)) (w : World) : Prop :=
  Lts.Exec (step A) w₀ h w

/-- The worlds the server starts in: some accounts whose counters are at their defaults, every
other table empty, nothing in progress. -/
structure Init (w : World) : Prop where
  counters : ∀ u ∈ w.db.users, u.failedLogins = 0 ∧ u.lockedUntil = none ∧ u.deviceFailures = 0 ∧
    u.deviceWindowStart = none ∧ u.lockoutMailedAt = none
  sessions : w.db.sessions = .empty
  knownDevices : w.db.knownDevices = .empty
  recoveryCodes : w.db.recoveryCodes = .empty
  tokens : w.db.tokens = .empty
  outbox : w.db.outbox = .empty
  requests : w.requests = .empty
  attempting : w.attempting = none

end World

/-! ## A sample instance -/

/-- Primitives that evaluate: a hash is the password followed by the salt, hashing keeps the
bytes, and every TOTP code is `000000`. -/
def App.sample : App where
  sha256 := id
  hmacSha256 _ _ := Vector.replicate 32 0
  hmacSha1 _ _ := Vector.replicate 20 0
  verifyPassword password phc := password.isPrefixOf phc
  hashPassword password salt := password ++ salt.map fun b => Char.ofNat b.toNat
  base64 := Base64.urlSafeNoPad
  secret := []
  mainOrigin := "https://kohaku.test".toList
  dummyHash := []
  addressParses _ := true

/-- An enabled account with its counters at their defaults. -/
def UserRow.sample (id : Nat) (email password : Str) (role : Role) (nonce : Option Bytes) :
    UserRow where
  id := id
  email := email
  role := role
  disabled := false
  passwordHash := some password
  totpNonce := nonce
  lockedUntil := none
  deviceFailures := 0
  deviceWindowStart := none
  totpLastStep := none
  failedLogins := 0
  lockoutMailedAt := none

/-- The server with the accounts `users` and nothing else. -/
def World.start (users : Table UserRow UserRow.key) : World where
  db := ⟨users, .empty, .empty, .empty, .empty, .empty, []⟩
  requests := .empty
  attempting := none

theorem World.init_start {users : Table UserRow UserRow.key}
    (h : ∀ u ∈ users.rows, u.failedLogins = 0 ∧ u.lockedUntil = none ∧ u.deviceFailures = 0 ∧
      u.deviceWindowStart = none ∧ u.lockoutMailedAt = none) : (World.start users).Init :=
  ⟨h, rfl, rfl, rfl, rfl, rfl, rfl, rfl⟩

/-- Draws that differ with `n`. -/
def Draws.sample (n : UInt8) : Draws where
  token := Vector.replicate 32 n
  csrf := Vector.replicate 32 n
  device := Vector.replicate 32 n
  nonce := Vector.replicate 16 n
  codes := (List.range 10).map fun i => Vector.replicate 10 (UInt8.ofNat i + n)

end Kohaku
