import Kohaku.Jobs
import Kohaku.Lts.Exec
import Kohaku.Server

/-!
# How long a session lasts

The requests of one session, one after the other, with retention and other transactions in between.
`current` records a use only when the last one recorded is five minutes old, so the stored time lags
behind the real one. By induction over the requests the lag stays below five minutes, and retention
removes only what no request is accepted for any more; both bounds on the lifetime follow.
-/

namespace Kohaku

open Sql

/-- `current`, when nothing comes between its read and its write. -/
def current (db : Db) (hash : Bytes) (now : Time) : Option SessionUser × Db :=
  match currentRead db hash now with
  | none => (none, db)
  | some (user, lastSeen) =>
    (some user, if now - lastSeen ≥ touchSeconds then touch db user.sessionId now else db)

/-! ## What the session layer reads -/

/-- The columns of a session that decide how long it lasts. -/
structure Life where
  id : Nat
  userId : Nat
  createdAt : Time
  lastSeen : Time
  deriving DecidableEq

/-- What the age of a session depends on. -/
def SessionRow.life (s : SessionRow) : Life := ⟨s.id, s.userId, s.createdAt, s.lastSeen⟩

/-- The sessions of a token hash. -/
def lives (db : Db) (hash : Bytes) : List Life :=
  (db.sessions.rows.filter fun s => s.tokenHash = hash).map SessionRow.life

/-- The account has a password and is enabled. -/
def mayUse (db : Db) (userId : Nat) : Bool :=
  (db.user? userId).any fun u => u.passwordHash.isSome && !u.disabled

namespace Life

/-- No request is accepted at `now` or later. -/
def expired (l : Life) (now : Time) : Bool :=
  l.lastSeen ≤ now - idleSeconds || l.createdAt ≤ now - absoluteSeconds

/-- A use of the session `id` is recorded. -/
def touched (id : Nat) (now : Time) (l : Life) : Life :=
  if l.id = id && l.lastSeen < now then { l with lastSeen := now } else l

end Life

variable {db db' : Db} {hash : Bytes} {now : Time}

theorem lives_touch (id : Nat) :
    lives (touch db id now) hash = (lives db hash).map (Life.touched id now) := by
  let record (s : SessionRow) : SessionRow :=
    if s.id = id && s.lastSeen < now then { s with lastSeen := now } else s
  have hhash : (fun s : SessionRow => decide (s.tokenHash = hash)) ∘ record =
      fun s : SessionRow => decide (s.tokenHash = hash) := by
    funext s
    simp only [Function.comp, record]
    split <;> rfl
  have hlife : SessionRow.life ∘ record = Life.touched id now ∘ SessionRow.life := by
    funext s
    exact apply_ite SessionRow.life _ _ _
  change ((db.sessions.rows.map record).filter _).map _ = _
  rw [List.filter_map, hhash, List.map_map, hlife, lives, List.map_map]

theorem lives_retentionSignIn :
    lives (retentionSignIn db now) hash = (lives db hash).filter fun l => !l.expired now := by
  rw [lives, lives, List.filter_map]
  refine congrArg _ ?_
  rw [List.filter_filter]
  change (db.sessions.rows.filter _).filter _ = _
  rw [List.filter_filter]
  refine List.filter_congr fun s _ => Bool.and_comm _ _

/-- What the session layer finds depends on these columns only. -/
theorem currentRead_view (db : Db) (hash : Bytes) (now : Time) :
    (currentRead db hash now).map (fun found => (found.1.sessionId, found.2)) =
      ((lives db hash).find? fun l => !l.expired now).bind fun l =>
        if mayUse db l.userId then some (l.id, l.lastSeen) else none := by
  have hfind : (lives db hash).find? (fun l => !l.expired now) =
      (db.sessions.find? fun s => s.tokenHash = hash && s.lastSeen > now - idleSeconds &&
        s.createdAt > now - absoluteSeconds).map SessionRow.life := by
    rw [lives, List.find?_map, List.find?_filter, Table.find?]
    congr 2
    funext s
    grind [Life.expired, SessionRow.life]
  rw [hfind, currentRead]
  cases db.sessions.find? fun s => s.tokenHash = hash && s.lastSeen > now - idleSeconds &&
      s.createdAt > now - absoluteSeconds with
  | none => rfl
  | some s =>
    change Option.map _ ((db.user? s.userId).bind _) = if mayUse db s.userId then some
      (s.id, s.lastSeen) else none
    rw [mayUse]
    cases db.user? s.userId with
    | none => rfl
    | some u =>
      rw [Option.bind_some, Option.any_some]
      split <;> rfl

theorem lives_createSession {A : App} {userId : Nat} {token csrf : Vector UInt8 32}
    (h : createSession A db userId now token csrf = some db') :
    ∃ id, lives db' (A.sha256 (asBytes (tokenText A.base64 token))) = [⟨id, userId, now, now⟩] := by
  rw [createSession, Option.ite_none_left_eq_some, Bool.not_eq_true, Table.any_eq_false] at h
  obtain ⟨hfresh, hdb⟩ := h
  cases hdb
  refine ⟨db.sessions.nextRowid, ?_⟩
  have hnone : (db.sessions.rows.filter fun s => s.tokenHash =
      A.sha256 (asBytes (tokenText A.base64 token))) = [] :=
    List.filter_eq_nil_iff.mpr fun s hs => by simpa using hfresh s hs
  rw [lives, Table.rows_insertNew, List.filter_append, hnone, List.nil_append]
  simp [SessionRow.life]

/-! ## One session -/

/-- What may happen in the life of a session. -/
inductive Use
  /-- A request with its cookie. -/
  | request (now : Time)
  | retention (now : Time)
  /-- Any other transaction: the session stays, and so does the account's right to use it. -/
  | other (db : Db)

/-- The database and the last clock reading. -/
structure Clocked where
  db : Db
  clock : Time

/-- A request or retention, unless the clock runs backwards, or a change that leaves the session and
the account's right to use it alone. -/
def Clocked.step (hash : Bytes) (userId : Nat) (s : Clocked) : Use → Option Clocked
  | .request now => if s.clock ≤ now then some ⟨(current s.db hash now).2, now⟩ else none
  | .retention now => if s.clock ≤ now then some ⟨retentionSignIn s.db now, now⟩ else none
  | .other db =>
    if lives db hash = lives s.db hash ∧ mayUse db userId = mayUse s.db userId then
      some ⟨db, s.clock⟩
    else none

/-- The request is accepted. -/
def accepted (db : Db) (hash : Bytes) (now : Time) : Bool := (current db hash now).1.isSome

/-- The time of a request that was accepted. -/
def acceptedAt (hash : Bytes) (e : Lts.Step Clocked Use) : Option Time :=
  match e.label with
  | .request now => if accepted e.pre.db hash now then some now else none
  | _ => none

/-- The last accepted request, or the creation. -/
def lastUse (hash : Bytes) (created : Time) (h : List (Lts.Step Clocked Use)) : Time :=
  (h.filterMap (acceptedAt hash)).getLastD created

/-- A request is accepted for a stored session that has not expired, when the account may use it. -/
theorem accepted_eq : accepted db hash now =
    ((lives db hash).find? fun l => !l.expired now).any fun l => mayUse db l.userId := by
  have hview := congrArg Option.isSome (currentRead_view db hash now)
  have haccepted : accepted db hash now = (currentRead db hash now).isSome := by
    rw [accepted, current]
    cases currentRead db hash now <;> rfl
  rw [haccepted, ← Option.isSome_map, hview]
  cases (lives db hash).find? fun l => !l.expired now with
  | none => rfl
  | some l =>
    rw [Option.bind_some, Option.any_some]
    cases mayUse db l.userId <;> rfl

/-- What is stored after an accepted request. -/
theorem lives_current {l : Life} (hl : lives db hash = [l]) (hlive : l.expired now = false)
    (huse : mayUse db l.userId = true) : lives (current db hash now).2 hash =
      [if now - l.lastSeen ≥ touchSeconds then l.touched l.id now else l] := by
  have hview := currentRead_view db hash now
  rw [hl, List.find?_singleton, hlive] at hview
  simp only [Bool.not_false, if_true, Option.bind_some, huse, Option.map_eq_some_iff, Prod.mk.injEq]
    at hview
  obtain ⟨⟨user, lastSeen⟩, hread, hid, hseen⟩ := hview
  cases hseen
  simp only [current, hread]
  split
  · rw [lives_touch, hl, List.map_singleton, ← hid]
  · exact hl

theorem current_refused (h : accepted db hash now = false) : (current db hash now).2 = db := by
  rw [accepted, current] at h
  rw [current]
  cases hread : currentRead db hash now with
  | none => rfl
  | some found =>
    rw [hread] at h
    cases h

theorem mayUse_current (userId : Nat) :
    mayUse (current db hash now).2 userId = mayUse db userId := by
  rw [current]
  cases currentRead db hash now with
  | none => rfl
  | some found =>
    dsimp only
    split <;> rfl

theorem Life.expired_mono {l : Life} {clock : Time} (h : l.expired clock = true)
    (hle : clock ≤ now) : l.expired now = true := by
  grind [Life.expired]

/-- The stored time of the last use is less than five minutes behind the real one, as long as the
session is stored; it goes only when it has expired. -/
structure Lagging (hash : Bytes) (userId : Nat) (created last : Time) (s : Clocked) (l : Life) :
    Prop where
  le_clock : last ≤ s.clock
  mayUse : mayUse s.db userId = true
  userId_eq : l.userId = userId
  createdAt_eq : l.createdAt = created
  le_last : l.lastSeen ≤ last
  lag : last < l.lastSeen + touchSeconds
  stored : lives s.db hash = [l] ∨ lives s.db hash = [] ∧ l.expired s.clock = true

section
variable {userId : Nat} {created last : Time} {s s' : Clocked} {l : Life}

theorem Lagging.accepted_eq (h : Lagging hash userId created last s l) (hnow : s.clock ≤ now) :
    accepted s.db hash now = !l.expired now := by
  rw [Kohaku.accepted_eq]
  rcases h.stored with hl | ⟨hgone, hexpired⟩
  · rw [hl, List.find?_singleton]
    cases l.expired now with
    | true => rfl
    | false =>
      rw [← h.userId_eq] at h
      exact h.mayUse
  · rw [hgone, Life.expired_mono hexpired hnow]
    rfl

/-- An accepted request is recorded, or the last one recorded is less than five minutes old. -/
theorem Lagging.use (h : Lagging hash userId created last s l) (hnow : s.clock ≤ now)
    (haccepted : accepted s.db hash now = true) :
    ∃ l', Lagging hash userId created now ⟨(current s.db hash now).2, now⟩ l' := by
  rw [h.accepted_eq hnow, Bool.not_eq_true'] at haccepted
  have hl : lives s.db hash = [l] := by
    rcases h.stored with hl | ⟨-, hexpired⟩
    · exact hl
    · rw [Life.expired_mono hexpired hnow] at haccepted
      cases haccepted
  have hlives := lives_current hl haccepted (by rw [h.userId_eq]; exact h.mayUse)
  have hle : l.lastSeen ≤ now := h.le_last.trans (h.le_clock.trans hnow)
  refine ⟨_, le_refl _, (mayUse_current userId).trans h.mayUse, ?_, ?_, ?_, ?_, .inl hlives⟩
  all_goals
    have := h.userId_eq
    have := h.createdAt_eq
    grind [Life.touched, touchSeconds]

theorem Lagging.step {use : Use} (h : Lagging hash userId created last s l)
    (hstep : s.step hash userId use = some s') :
    ∃ l', Lagging hash userId created ((acceptedAt hash ⟨s, use, s'⟩).getD last) s' l' := by
  cases use with
  | request now =>
    rw [Clocked.step, Option.ite_none_right_eq_some] at hstep
    obtain ⟨hnow, hs'⟩ := hstep
    cases hs'
    cases haccepted : accepted s.db hash now with
    | true =>
      simp only [acceptedAt, haccepted, if_true, Option.getD_some]
      exact h.use hnow haccepted
    | false =>
      simp only [acceptedAt, haccepted, current_refused haccepted]
      refine ⟨l, { h with le_clock := h.le_clock.trans hnow, stored := ?_ }⟩
      exact h.stored.imp_right fun hgone => ⟨hgone.1, Life.expired_mono hgone.2 hnow⟩
  | retention now =>
    rw [Clocked.step, Option.ite_none_right_eq_some] at hstep
    obtain ⟨hnow, hs'⟩ := hstep
    cases hs'
    refine ⟨l, { h with le_clock := h.le_clock.trans hnow, stored := ?_ }⟩
    dsimp only
    rw [lives_retentionSignIn]
    rcases h.stored with hl | ⟨hgone, hexpired⟩
    · rw [hl, List.filter_singleton]
      cases hexpired : l.expired now with
      | true => exact .inr ⟨rfl, rfl⟩
      | false => exact .inl rfl
    · rw [hgone]
      exact .inr ⟨rfl, Life.expired_mono hexpired hnow⟩
  | other db =>
    rw [Clocked.step, Option.ite_none_right_eq_some] at hstep
    obtain ⟨⟨hlives, huse⟩, hs'⟩ := hstep
    cases hs'
    have hstored : lives db hash = [l] ∨ lives db hash = [] ∧ l.expired s.clock = true := by
      rw [hlives]
      exact h.stored
    exact ⟨l, { h with mayUse := huse.trans h.mayUse, stored := hstored }⟩

theorem lastUse_snoc (h : List (Lts.Step Clocked Use)) (e : Lts.Step Clocked Use) :
    lastUse hash created (h ++ [e]) = (acceptedAt hash e).getD (lastUse hash created h) := by
  rw [lastUse, List.filterMap_append]
  cases he : acceptedAt hash e with
  | none => simp [lastUse, he]
  | some now => simp [he]

theorem Lagging.run {h : List (Lts.Step Clocked Use)}
    (h0 : ∃ l, Lagging hash userId created created s l)
    (H : Lts.Exec (Clocked.step hash userId) s h s') :
    ∃ l, Lagging hash userId created (lastUse hash created h) s' l := by
  refine H.rec_snoc (fun h t => ∃ l, Lagging hash userId created (lastUse hash created h) t l) h0 ?_
  rintro h t use u - ⟨l, hl⟩ hstep
  rw [lastUse_snoc]
  exact hl.step hstep

end

/-- Session lifetime: an accepted request comes within the idle and the absolute limit, and every
request within the absolute limit that leaves five minutes of the idle one is accepted. -/
theorem session_lifetime {A : App} {before db : Db} {userId : Nat} {created : Time}
    {token csrf : Vector UInt8 32}
    (hcreate : createSession A before userId created token csrf = some db)
    (haccount : mayUse db userId = true) {h : List (Lts.Step Clocked Use)} {s : Clocked}
    (H : Lts.Exec (Clocked.step (A.sha256 (asBytes (tokenText A.base64 token))) userId)
      ⟨db, created⟩ h s)
    {now : Time} (hnow : s.clock ≤ now) :
    (accepted s.db (A.sha256 (asBytes (tokenText A.base64 token))) now = true →
      now - lastUse (A.sha256 (asBytes (tokenText A.base64 token))) created h < 43200 ∧
      now - created < 604800) ∧
    (now - lastUse (A.sha256 (asBytes (tokenText A.base64 token))) created h ≤ 43200 - 300 →
      now - created < 604800 →
      accepted s.db (A.sha256 (asBytes (tokenText A.base64 token))) now = true) := by
  obtain ⟨id, hlives⟩ := lives_createSession hcreate
  have hstart : Lagging (A.sha256 (asBytes (tokenText A.base64 token))) userId created created
      ⟨db, created⟩
      ⟨id, userId, created, created⟩ :=
    ⟨le_refl _, haccount, rfl, rfl, le_refl _, lt_add_of_pos_right _ (by decide), .inl hlives⟩
  obtain ⟨l, hl⟩ := Lagging.run ⟨_, hstart⟩ H
  rw [hl.accepted_eq hnow]
  have := hl.createdAt_eq
  have := hl.le_last
  have := hl.lag
  grind [Life.expired, idleSeconds, absoluteSeconds, touchSeconds]

namespace UsedOnce

/-- One account. -/
def users : Table UserRow UserRow.key :=
  ⟨[UserRow.sample 1 "owner@kohaku.test".toList "the password".toList .admin none], by decide⟩

/-- The token of the session. -/
def token : Vector UInt8 32 := Vector.replicate 32 7

/-- A database with that session. -/
def signedIn : Db :=
  (createSession App.sample (World.start users).db 1 0 token token).get (by decide)

theorem created : createSession App.sample (World.start users).db 1 0 token token = some signedIn :=
  (Option.some_get _).symm

/-- The hash under which the session is stored. -/
def cookieHash : Bytes := App.sample.sha256 (asBytes (tokenText App.sample.base64 token))

/-- The first use is not recorded, the second one is. -/
def uses : List Use := [.request 299, .request 43000, .retention 60000]

/-- The run of these uses. -/
def history : List (Lts.Step Clocked Use) :=
  Lts.history (Clocked.step cookieHash 1) ⟨signedIn, 0⟩ uses

theorem run : Lts.Exec (Clocked.step cookieHash 1) ⟨signedIn, 0⟩ history
    (Lts.last ⟨signedIn, 0⟩ history) :=
  .of_history (by decide)

end UsedOnce

theorem session_lifetime_used_once :
    accepted (Lts.last ⟨UsedOnce.signedIn, 0⟩ UsedOnce.history).db UsedOnce.cookieHash 85900 =
      true :=
  (session_lifetime UsedOnce.created (by decide) UsedOnce.run (by decide)).2
    (by decide) (by decide)

end Kohaku
