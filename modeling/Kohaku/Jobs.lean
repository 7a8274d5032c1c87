import Kohaku.Auth.Session
import Kohaku.Mail.Outbox

/-!
# Retention

The three transactions of a retention run; each is its own, so anything may commit in between.
-/

namespace Kohaku

open Sql

/-- Audit entries are kept this long. -/
def auditKeepSeconds : Int := 365 * 24 * 60 * 60

/-- Mail retention: what has run out is given up, and what is settled is deleted. -/
def retentionOutbox (kinds : List MailKind) (unixepoch : Time) (db : Db) (now : Time) : Db :=
  let db := giveUpExpired kinds unixepoch db now
  { db with outbox := db.outbox.delete fun r => !r.unsent }

/-- Audit retention. -/
def retentionAudit (db : Db) (now : Time) : Db :=
  { db with auditLog := db.auditLog.filter fun e => !(e.time < now - auditKeepSeconds) }

/-- Sign-in retention: expired sessions, used and expired reset tokens, expired device cookies. -/
def retentionSignIn (db : Db) (now : Time) : Db :=
  { db with
    sessions := db.sessions.delete fun s =>
      s.lastSeen ≤ now - idleSeconds || s.createdAt ≤ now - absoluteSeconds
    tokens := db.tokens.delete fun t =>
      t.purpose = .reset && (t.usedAt.isSome || t.expiresAt ≤ now)
    knownDevices := db.knownDevices.delete fun d => d.createdAt ≤ now - deviceSeconds }

end Kohaku
