import Kohaku.Db
import Kohaku.Mail.Message

/-!
# The persistent outbox

`enqueue`, the worker's `pick` and `record`, and the give-up of an unsent row, as transactions
on `Db`. A kind's give-up action runs SQL of its own, so it is a function on the database; the
`unixepoch()` it may call is passed in.
-/

namespace Kohaku

open Sql

/-- Delay before the next attempt after the 1st, 2nd, 3rd and 4th failure. -/
def retryDelays : List Int := [60, 5 * 60, 30 * 60, 2 * 60 * 60]

/-- A row is given up at the latest this long after it was queued. -/
def maxAge : Int := 24 * 60 * 60

/-- A kind of mail, declared by the part of the program that sends it. -/
structure MailKind where
  name : Str
  priority : Priority
  /-- Carries a token or one-time code: deleted when sent or given up. -/
  token : Bool
  lifetime : Int
  /-- Stops the row's token from being accepted, given `unixepoch()` and the row id. -/
  giveUp : Option (Time → Db → Nat → Db)

/-- An address, or the account whose address is read when the mail is sent. -/
inductive Recipient
  | address (address : Str)
  | user (id : Nat)

/-- A mail to be queued. -/
structure NewMail where
  kind : MailKind
  recipient : Recipient
  subject : Str
  body : Str
  placeholder : Bool

/-- The row that is inserted for `mail`, due at once. -/
abbrev NewMail.row (mail : NewMail) (now : Time) (userId : Option Nat) (address : Option Str)
    (id : Nat) : OutboxRow where
  id := id
  kind := mail.kind.name
  userId := userId
  address := address
  subject := Kohaku.subject mail.subject
  body := mail.body
  priority := mail.kind.priority
  token := mail.kind.token
  placeholder := mail.placeholder
  attempts := 0
  nextAttemptAt := now
  queuedAt := now
  expiresAt := now + mail.kind.lifetime
  outcome := none

/-- Queues `mail`; `none` when the recipient is refused. -/
def enqueue (addressParses : Str → Bool) (db : Db) (mail : NewMail) (now : Time) : Option Db :=
  match mail.recipient with
  | .address address =>
    if validateRecipient addressParses address then
      some { db with outbox := db.outbox.insertNew (mail.row now none (some address)) }
    else none
  | .user id => some { db with outbox := db.outbox.insertNew (mail.row now (some id) none) }

/-- The earlier of queue time plus 24 h and the row's expiry. -/
def deadline (queuedAt expiresAt : Time) : Time := min (queuedAt + maxAge) expiresAt

/-- The next attempt after the `failures`-th failure ending at `endedAt`; `none` when it would
start at or after the deadline. -/
def nextAttempt (failures : Nat) (endedAt deadline : Time) : Option Time :=
  let delay := retryDelays.getD (min (failures - 1) (retryDelays.length - 1)) 0
  let next := endedAt + delay
  if next < deadline then some next else none

/-- `find_kind`: the kind of a stored name. -/
def findKind (kinds : List MailKind) (name : Str) : Option MailKind :=
  kinds.find? fun kind => kind.name = name

/-- An unsent row. -/
def OutboxRow.unsent (row : OutboxRow) : Bool := row.outcome = none

/-- Gives up an unsent row: the kind's action, then a token-bearing row is deleted and any other
marked. -/
def giveUp (kinds : List MailKind) (unixepoch : Time) (db : Db) (id : Nat) : Db :=
  match db.outbox.find? fun row => row.id = id && row.unsent with
  | none => db
  | some row =>
    let db :=
      match (findKind kinds row.kind).bind MailKind.giveUp with
      | some action => action unixepoch db id
      | none => db
    if row.token then { db with outbox := db.outbox.delete fun r => r.id = id }
    else
      { db with
        outbox := db.outbox.update (fun r => r.id = id && r.unsent)
          fun r => { r with outcome := some .givenUp } }

/-- The unsent rows whose deadline is not after `now`. -/
def expiredIds (db : Db) (now : Time) : List Nat :=
  (db.outbox.rows.filter fun row =>
    row.unsent && deadline row.queuedAt row.expiresAt ≤ now).map OutboxRow.id

/-- `give_up_expired`: each row whose deadline has passed. -/
def giveUpExpired (kinds : List MailKind) (unixepoch : Time) (db : Db) (now : Time) : Db :=
  (expiredIds db now).foldl (giveUp kinds unixepoch) db

/-- A due row as the worker attempts it. -/
structure DueRow where
  id : Nat
  kind : Str
  address : Str
  subject : Str
  body : Str
  priority : Priority
  attempts : Nat
  deriving DecidableEq

/-- What `pick` returns: a row to attempt, or when the next one is due. -/
inductive Pick
  | due (row : DueRow)
  | idle (next : Option Time)
  deriving DecidableEq

/-- `ORDER BY priority = 'security' DESC, next_attempt_at, queued_at, id`. -/
def dueLe (a b : OutboxRow) : Bool :=
  let rank := fun r : OutboxRow => if r.priority = .security then 0 else 1
  rank a < rank b || rank a = rank b &&
    (a.nextAttemptAt < b.nextAttemptAt || a.nextAttemptAt = b.nextAttemptAt &&
      (a.queuedAt < b.queuedAt || a.queuedAt = b.queuedAt && a.id ≤ b.id))

/-- Gives up expired rows, deletes due placeholders, then returns the due row to attempt or the
earliest next attempt. `none` when the due row has no address to deliver to. -/
def pick (kinds : List MailKind) (unixepoch : Time) (db : Db) (now : Time) :
    Option (Pick × Db) :=
  let db := giveUpExpired kinds unixepoch db now
  let db := { db with
    outbox := db.outbox.delete fun r => r.placeholder && r.unsent && r.nextAttemptAt ≤ now }
  let due := orderBy dueLe (db.outbox.rows.filter fun r => r.unsent && r.nextAttemptAt ≤ now)
  match due.head? with
  | some row => do
    let address ← row.address <|> ((row.userId.bind db.user?).map fun u => u.email)
    return (.due { id := row.id, kind := row.kind, address, subject := row.subject
                   body := row.body, priority := row.priority, attempts := row.attempts }, db)
  | none =>
    let next := ((db.outbox.rows.filter OutboxRow.unsent).map OutboxRow.nextAttemptAt).min?
    some (.idle next, db)

/-- The database after a pick. -/
def afterPick (kinds : List MailKind) (unixepoch : Time) (db : Db) (now : Time) : Db :=
  let db := giveUpExpired kinds unixepoch db now
  { db with outbox := db.outbox.delete fun r => r.placeholder && r.unsent && r.nextAttemptAt ≤ now }

/-- The rows that are due. -/
def dueRows (db : Db) (now : Time) : List OutboxRow :=
  db.outbox.rows.filter fun r => r.unsent && r.nextAttemptAt ≤ now

/-- What a pick can return. -/
theorem pick_cases {kinds : List MailKind} {unixepoch now : Time} {db db' : Db} {p : Pick}
    (h : pick kinds unixepoch db now = some (p, db')) :
    db' = afterPick kinds unixepoch db now ∧
      ((∃ row ∈ dueRows db' now, ∃ address, p = .due
        { id := row.id, kind := row.kind, address, subject := row.subject, body := row.body
          priority := row.priority, attempts := row.attempts }) ∨
      dueRows db' now = [] ∧
        p =
          .idle ((db'.outbox.rows.filter OutboxRow.unsent).map OutboxRow.nextAttemptAt).min?) := by
  unfold pick at h
  dsimp only at h
  split at h
  · rename_i row hrow
    simp only [Option.bind_eq_bind, Option.bind_eq_some_iff, Option.pure_def, Option.some.injEq,
      Prod.mk.injEq] at h
    obtain ⟨address, -, rfl, rfl⟩ := h
    refine ⟨rfl, .inl ⟨row, ?_, address, rfl⟩⟩
    exact mem_orderBy.mp (List.mem_of_head? hrow)
  · rename_i hnone
    cases h
    refine ⟨rfl, .inr ⟨?_, rfl⟩⟩
    rw [List.head?_eq_none_iff, ← List.length_eq_zero_iff, length_orderBy] at hnone
    exact List.length_eq_zero_iff.mp hnone

/-- How a delivery attempt ended. -/
inductive Delivery
  | sent
  | failed
  deriving DecidableEq, Repr

/-- Records an attempt's outcome by row id; a row deleted meanwhile stays deleted. -/
def record (kinds : List MailKind) (unixepoch : Time) (db : Db) (id : Nat) (outcome : Delivery)
    (endedAt : Time) : Db :=
  match db.outbox.find? fun row => row.id = id && row.unsent with
  | none => db
  | some row =>
    let attempts := row.attempts + 1
    match outcome with
    | .sent =>
      if row.token then { db with outbox := db.outbox.delete fun r => r.id = id }
      else
        { db with
          outbox := db.outbox.update (fun r => r.id = id)
            fun r => { r with outcome := some .sent, attempts } }
    | .failed =>
      match nextAttempt attempts endedAt (deadline row.queuedAt row.expiresAt) with
      | some next =>
        { db with
          outbox := db.outbox.update (fun r => r.id = id)
            fun r => { r with attempts, nextAttemptAt := next } }
      | none =>
        giveUp kinds unixepoch
          { db with
            outbox := db.outbox.update (fun r => r.id = id) fun r => { r with attempts } } id

end Kohaku
