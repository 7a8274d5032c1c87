import Kohaku.Auth.Mail
import Kohaku.Jobs
import Kohaku.Lts.Exec

/-!
# The outbox row by row

The calls that write the outbox, as a transition system: `enqueue`, the worker's `pick` and
`record`, `give_up_expired`, retention, and the deletion of an account with its rows. Although they
are statements over the whole table, what a call does to a row depends on that row alone; `onRow`
says what, and `get?_step` that it says all.
-/

namespace Kohaku

open Sql

/-- Mail kinds whose give-up actions leave the outbox itself alone. -/
structure OutboxKinds where
  kinds : List MailKind
  keeps_outbox : ∀ kind ∈ kinds, ∀ action, kind.giveUp = some action → ∀ unixepoch db id,
    (action unixepoch db id).outbox = db.outbox

/-- The kinds the server is started with. -/
def OutboxKinds.server : OutboxKinds where
  kinds := Mail.kinds
  keeps_outbox := by
    intro kind hkind action haction unixepoch db id
    simp only [Mail.kinds, List.mem_cons, List.not_mem_nil, or_false] at hkind
    rcases hkind with rfl | rfl | rfl
    · cases haction
      unfold Mail.expireResetToken
      split <;> rfl
    · cases haction
    · cases haction

/-- The kind of the row has a give-up action. -/
def OutboxKinds.hasAction (K : OutboxKinds) (r : OutboxRow) : Bool :=
  ((findKind K.kinds r.kind).bind MailKind.giveUp).isSome

/-! ## The calls -/

/-- The functions that change the outbox. -/
inductive OutboxCall
  | enqueue (mail : NewMail) (now : Time)
  | pick (now unixepoch : Time)
  | record (id : Nat) (outcome : Delivery) (endedAt unixepoch : Time)
  | giveUpExpired (now unixepoch : Time)
  | retention (now unixepoch : Time)
  | deleteAccount (userId : Nat)

/-- `DELETE FROM users WHERE id = ?`, with the rows that refer to the account. -/
def deleteAccount (db : Db) (userId : Nat) : Db where
  users := db.users.delete fun u => u.id = userId
  sessions := db.sessions.delete fun s => s.userId = userId
  knownDevices := db.knownDevices.delete fun d => d.userId = userId
  recoveryCodes := db.recoveryCodes.delete fun c => c.userId = userId
  tokens := db.tokens.delete fun t => t.userId = some userId
  outbox := db.outbox.delete fun r => r.userId = some userId
  auditLog := db.auditLog

/-- One call in its transaction; `none` when it is rolled back. -/
def OutboxCall.step (K : OutboxKinds) (addressParses : Str → Bool) (db : Db) :
    OutboxCall → Option Db
  | enqueue mail now => Kohaku.enqueue addressParses db mail now
  | pick now unixepoch => (Kohaku.pick K.kinds unixepoch db now).map Prod.snd
  | record id outcome endedAt unixepoch =>
    some (Kohaku.record K.kinds unixepoch db id outcome endedAt)
  | giveUpExpired now unixepoch => some (Kohaku.giveUpExpired K.kinds unixepoch db now)
  | retention now unixepoch => some (retentionOutbox K.kinds unixepoch db now)
  | deleteAccount userId => some (Kohaku.deleteAccount db userId)

/-! ## One row -/

namespace OutboxRow

/-- An unsent row whose deadline is not after `now`. -/
def expired (r : OutboxRow) (now : Time) : Bool :=
  r.unsent && deadline r.queuedAt r.expiresAt ≤ now

/-- What is left of a row that is given up. -/
def giveUp? (r : OutboxRow) : Option OutboxRow :=
  if r.token then none else some { r with outcome := some .givenUp }

/-- What is left of a row that is sent. -/
def sent? (r : OutboxRow) : Option OutboxRow :=
  if r.token then none else some { r with outcome := some .sent, attempts := r.attempts + 1 }

/-- When the row is attempted again after a failure. -/
def retryAt (r : OutboxRow) (endedAt : Time) : Option Time :=
  nextAttempt (r.attempts + 1) endedAt (deadline r.queuedAt r.expiresAt)

/-- What is left of a row whose attempt ended. -/
def record? (r : OutboxRow) (outcome : Delivery) (endedAt : Time) : Option OutboxRow :=
  match outcome with
  | .sent => r.sent?
  | .failed =>
    match r.retryAt endedAt with
    | some next => some { r with attempts := r.attempts + 1, nextAttemptAt := next }
    | none => { r with attempts := r.attempts + 1 }.giveUp?

/-- What is left of a row when those with a passed deadline are given up. -/
def expire (r : OutboxRow) (now : Time) : Option OutboxRow :=
  if r.expired now then r.giveUp? else some r

end OutboxRow

/-- What a call leaves of a row. -/
def OutboxCall.onRow (c : OutboxCall) (r : OutboxRow) : Option OutboxRow :=
  match c with
  | enqueue _ _ => some r
  | pick now _ =>
    (r.expire now).filter fun r => !(r.placeholder && r.unsent && r.nextAttemptAt ≤ now)
  | record id outcome endedAt _ =>
    if r.id = id && r.unsent then r.record? outcome endedAt else some r
  | giveUpExpired now _ => r.expire now
  | retention now _ => (r.expire now).filter OutboxRow.unsent
  | deleteAccount userId => if r.userId = some userId then none else some r

/-! ## The statements, row by row -/

variable {K : OutboxKinds} {db db' : Db} {i id : Nat} {r : OutboxRow} {unixepoch now : Time}
  {c : OutboxCall} {P : Str → Bool}

theorem id_of_get? (h : db.outbox.get? i = some r) : r.id = i := Table.key_of_get? h

/-- `WHERE id = ? AND outcome IS NULL`. -/
theorem find?_unsent : (db.outbox.find? fun row => row.id = i && row.unsent) =
    (db.outbox.get? i).filter OutboxRow.unsent := by
  cases hg : db.outbox.get? i with
  | none =>
    refine Table.find?_eq_none.mpr fun a ha => ?_
    simp [Table.get?_eq_none.mp hg a ha]
  | some r =>
    obtain ⟨hr, rfl⟩ := Table.get?_eq_some.mp hg
    cases hu : r.unsent with
    | true =>
      rw [Option.filter_some_pos hu]
      cases hf : db.outbox.find? fun row => row.id = r.id && row.unsent with
      | none => simpa [hu] using Table.find?_eq_none.mp hf r hr
      | some s =>
        have hs := Table.of_find? hf
        rw [Bool.and_eq_true, decide_eq_true_eq] at hs
        rw [Table.eq_of_key_eq (Table.mem_of_find? hf) hr hs.1]
    | false =>
      rw [Option.filter_some_neg (by simp [hu])]
      refine Table.find?_eq_none.mpr fun a ha => ?_
      by_cases hid : a.id = r.id
      · simp [Table.eq_of_key_eq ha hr hid, hu]
      · simp [hid]

theorem get?_delete_outbox (p : OutboxRow → Bool) :
    (db.outbox.delete p).get? i = (db.outbox.get? i).filter fun r => !p r :=
  Table.get?_delete

theorem get?_update_outbox (p : OutboxRow → Bool) (f : OutboxRow → OutboxRow)
    (hf : ∀ r, (f r).id = r.id) : (db.outbox.update p f hf).get? i =
      (db.outbox.get? i).map fun r => if p r then f r else r := by
  change (db.outbox.toTable.update p f hf).get? i = _
  exact Table.get?_update

/-- The action of a kind leaves the outbox alone. -/
theorem outbox_action (db : Db) (name : Str) (unixepoch : Time) (id : Nat) :
    (match (findKind K.kinds name).bind MailKind.giveUp with
      | some action => action unixepoch db id
      | none => db).outbox = db.outbox := by
  split
  · rename_i action h
    obtain ⟨kind, hk, ha⟩ := Option.bind_eq_some_iff.mp h
    exact K.keeps_outbox kind (List.mem_of_find?_eq_some hk) action ha unixepoch db id
  · rfl

/-- No unsent row has the id: nothing is touched. -/
theorem bind_of_none (f : OutboxRow → Option OutboxRow)
    (h : (db.outbox.get? id).filter OutboxRow.unsent = none) :
    ((db.outbox.get? i).bind fun r => if r.id = id && r.unsent then f r else some r) =
      db.outbox.get? i := by
  cases hg : db.outbox.get? i with
  | none => rfl
  | some r =>
    rw [Option.bind_some, if_neg]
    rw [Bool.and_eq_true, decide_eq_true_eq]
    rintro ⟨rfl, hu⟩
    rw [id_of_get? hg, hg, Option.filter_some_pos hu] at h
    cases h

/-- The unsent row with the id is the only one touched. -/
theorem eq_of_unsent {s : OutboxRow} (h : (db.outbox.get? id).filter OutboxRow.unsent = some s)
    (hg : db.outbox.get? i = some r) (hid : r.id = id) : r = s ∧ s.unsent = true := by
  obtain ⟨hs, hu⟩ := Option.filter_eq_some_iff.mp h
  rw [← id_of_get? hg, hid, hs] at hg
  exact ⟨(Option.some.inj hg).symm, hu⟩

theorem get?_delete_id {s : OutboxRow}
    (h : (db.outbox.get? id).filter OutboxRow.unsent = some s) :
    (db.outbox.delete fun r => r.id = id).get? i =
      (db.outbox.get? i).bind fun r => if r.id = id && r.unsent then none else some r := by
  rw [get?_delete_outbox]
  cases hg : db.outbox.get? i with
  | none => rfl
  | some r =>
    by_cases hid : r.id = id
    · obtain ⟨rfl, hu⟩ := eq_of_unsent h hg hid
      simp [hid, hu]
    · simp [hid, Option.filter]

theorem get?_update_id {s : OutboxRow} {f : OutboxRow → OutboxRow} (hf : ∀ r, (f r).id = r.id)
    (h : (db.outbox.get? id).filter OutboxRow.unsent = some s) :
    (db.outbox.update (fun r => r.id = id) f hf).get? i =
      (db.outbox.get? i).bind fun r => if r.id = id && r.unsent then some (f s) else some r := by
  rw [get?_update_outbox]
  cases hg : db.outbox.get? i with
  | none => rfl
  | some r =>
    by_cases hid : r.id = id
    · obtain ⟨rfl, hu⟩ := eq_of_unsent h hg hid
      simp [hid, hu]
    · simp [hid]

theorem giveUp_of_none (h : (db.outbox.get? id).filter OutboxRow.unsent = none) :
    giveUp K.kinds unixepoch db id = db := by
  rw [giveUp, find?_unsent, h]

theorem outbox_giveUp (h : (db.outbox.get? id).filter OutboxRow.unsent = some r) :
    (giveUp K.kinds unixepoch db id).outbox =
      if r.token then db.outbox.delete fun r => r.id = id
      else db.outbox.update (fun r => r.id = id && r.unsent)
        fun r => { r with outcome := some .givenUp } := by
  rw [giveUp, find?_unsent, h]
  have hout := outbox_action (K := K) db r.kind unixepoch id
  dsimp only
  split
  · change AutoTable.delete _ _ = _
    congr 1
  · change AutoTable.update _ _ _ = _
    congr 1

/-- Giving up touches the unsent row with the id. -/
theorem get?_giveUp : (giveUp K.kinds unixepoch db id).outbox.get? i =
    (db.outbox.get? i).bind fun r => if r.id = id && r.unsent then r.giveUp? else some r := by
  cases hf : (db.outbox.get? id).filter OutboxRow.unsent with
  | none => rw [giveUp_of_none hf, bind_of_none _ hf]
  | some s =>
    rw [outbox_giveUp hf]
    cases ht : s.token with
    | true =>
      rw [if_pos rfl, get?_delete_id hf]
      cases hg : db.outbox.get? i with
      | none => rfl
      | some r =>
        by_cases hid : r.id = id
        · obtain ⟨rfl, hu⟩ := eq_of_unsent hf hg hid
          simp [hid, hu, OutboxRow.giveUp?, ht]
        · simp [hid]
    | false =>
      rw [if_neg Bool.false_ne_true, get?_update_outbox]
      cases hg : db.outbox.get? i with
      | none => rfl
      | some r =>
        by_cases hid : r.id = id
        · obtain ⟨rfl, hu⟩ := eq_of_unsent hf hg hid
          simp [hid, hu, OutboxRow.giveUp?, ht]
        · simp [hid]

/-- Giving up several rows. -/
theorem get?_foldl_giveUp (ids : List Nat) :
    (ids.foldl (giveUp K.kinds unixepoch) db).outbox.get? i =
    (db.outbox.get? i).bind fun r => if r.id ∈ ids && r.unsent then r.giveUp? else some r := by
  induction ids generalizing db with
  | nil => cases hg : db.outbox.get? i <;> simp [hg]
  | cons id ids ih =>
    rw [List.foldl_cons, ih, get?_giveUp]
    cases db.outbox.get? i with
    | none => rfl
    | some r =>
      by_cases hid : r.id = id
      · cases hu : r.unsent with
        | false => simp [hu]
        | true =>
          -- a row that was given up is not unsent any more
          cases ht : r.token <;> simp [hid, hu, OutboxRow.giveUp?, ht]
      · simp [hid]

theorem mem_expiredIds (h : db.outbox.get? i = some r) (now : Time) :
    i ∈ expiredIds db now ↔ r.expired now = true := by
  obtain ⟨hr, rfl⟩ := Table.get?_eq_some.mp h
  unfold expiredIds
  simp only [List.mem_map, List.mem_filter]
  constructor
  · rintro ⟨s, ⟨hs, hexp⟩, hid⟩
    rw [← Table.eq_of_key_eq (show s ∈ db.outbox.toTable from hs) hr hid]
    exact hexp
  · intro hexp
    exact ⟨r, ⟨hr, hexp⟩, rfl⟩

theorem get?_giveUpExpired : (giveUpExpired K.kinds unixepoch db now).outbox.get? i =
    (db.outbox.get? i).bind fun r => r.expire now := by
  rw [giveUpExpired, get?_foldl_giveUp]
  cases hg : db.outbox.get? i with
  | none => rfl
  | some r =>
    have hmem := mem_expiredIds hg now
    rw [← id_of_get? hg] at hmem
    rw [Option.bind_some, Option.bind_some, OutboxRow.expire]
    congr 1
    rw [eq_iff_iff, Bool.and_eq_true, decide_eq_true_eq, hmem]
    exact ⟨fun h => h.1, fun h => ⟨h, (Bool.and_eq_true _ _ ▸ h).1⟩⟩

/-! ## Picks -/

theorem get?_afterPick : (afterPick K.kinds unixepoch db now).outbox.get? i =
    (db.outbox.get? i).bind fun r => (OutboxCall.pick now unixepoch).onRow r := by
  unfold afterPick
  dsimp only
  rw [get?_delete_outbox, get?_giveUpExpired]
  cases db.outbox.get? i <;> rfl

/-! ## Records -/

theorem record_of_none {outcome : Delivery} {endedAt : Time}
    (h : (db.outbox.get? id).filter OutboxRow.unsent = none) :
    record K.kinds unixepoch db id outcome endedAt = db := by
  rw [record, find?_unsent, h]

/-- What holds of the unsent row with the id decides what becomes of it. -/
theorem bind_congr_unsent {s : OutboxRow} {f g : OutboxRow → Option OutboxRow}
    (h : (db.outbox.get? id).filter OutboxRow.unsent = some s) (hfg : f s = g s) :
    ((db.outbox.get? i).bind fun r => if r.id = id && r.unsent then f r else some r) =
      (db.outbox.get? i).bind fun r => if r.id = id && r.unsent then g r else some r := by
  cases hg : db.outbox.get? i with
  | none => rfl
  | some r =>
    by_cases hid : r.id = id
    · obtain ⟨rfl, hu⟩ := eq_of_unsent h hg hid
      simp [hid, hu, hfg]
    · simp [hid]

theorem get?_record {outcome : Delivery} {endedAt : Time} :
    (record K.kinds unixepoch db id outcome endedAt).outbox.get? i =
      (db.outbox.get? i).bind fun r =>
        if r.id = id && r.unsent then r.record? outcome endedAt else some r := by
  cases hf : (db.outbox.get? id).filter OutboxRow.unsent with
  | none => rw [record_of_none hf, bind_of_none _ hf]
  | some s =>
    rw [record, find?_unsent, hf]
    dsimp only
    cases outcome with
    | sent =>
      cases ht : s.token with
      | true =>
        refine (get?_delete_id hf).trans (bind_congr_unsent hf ?_)
        simp [OutboxRow.record?, OutboxRow.sent?, ht]
      | false =>
        refine (get?_update_id _ hf).trans (bind_congr_unsent hf ?_)
        simp [OutboxRow.record?, OutboxRow.sent?, ht]
    | failed =>
      dsimp only
      cases hn : nextAttempt (s.attempts + 1) endedAt (deadline s.queuedAt s.expiresAt) with
      | some next =>
        refine (get?_update_id _ hf).trans (bind_congr_unsent hf ?_)
        simp [OutboxRow.record?, OutboxRow.retryAt, hn]
      | none =>
        rw [get?_giveUp, get?_update_id _ hf]
        cases hg : db.outbox.get? i with
        | none => rfl
        | some r =>
          by_cases hid : r.id = id
          · obtain ⟨rfl, hu⟩ := eq_of_unsent hf hg hid
            subst hid
            have hu' : { r with attempts := r.attempts + 1 }.unsent = true := hu
            simp [hu, hu', OutboxRow.record?, OutboxRow.retryAt, hn]
          · simp [hid]

/-! ## A call, row by row -/

theorem seq_giveUp : (giveUp K.kinds unixepoch db id).outbox.seq = db.outbox.seq := by
  cases hf : (db.outbox.get? id).filter OutboxRow.unsent with
  | none => rw [giveUp_of_none hf]
  | some s =>
    rw [outbox_giveUp hf]
    split <;> rfl

theorem seq_giveUpExpired :
    (giveUpExpired K.kinds unixepoch db now).outbox.seq = db.outbox.seq := by
  unfold giveUpExpired
  induction expiredIds db now generalizing db with
  | nil => rfl
  | cons id ids ih => rw [List.foldl_cons, ih, seq_giveUp]

theorem seq_record {outcome : Delivery} {endedAt : Time} :
    (record K.kinds unixepoch db id outcome endedAt).outbox.seq = db.outbox.seq := by
  cases hf : (db.outbox.get? id).filter OutboxRow.unsent with
  | none => rw [record_of_none hf]
  | some s =>
    rw [record, find?_unsent, hf]
    dsimp only
    cases outcome with
    | sent =>
      dsimp only
      split <;> rfl
    | failed =>
      dsimp only
      split
      · rfl
      · exact seq_giveUp

/-- A row a call inserts. -/
def OutboxCall.Inserts (c : OutboxCall) (r : OutboxRow) : Prop :=
  ∃ mail now userId address, c = .enqueue mail now ∧ r = mail.row now userId address r.id

/-- A call leaves of each row what `onRow` says, and inserts at most one, with the next id. -/
theorem get?_step (h : c.step K P db = some db') :
    (db'.outbox.seq = db.outbox.seq ∧ ∀ i, db'.outbox.get? i = (db.outbox.get? i).bind c.onRow) ∨
    ∃ r, c.Inserts r ∧ r.id = db.outbox.seq + 1 ∧ db'.outbox.seq = db.outbox.seq + 1 ∧
      ∀ i, db'.outbox.get? i = if i = r.id then some r else db.outbox.get? i := by
  cases c with
  | enqueue mail now =>
    have hnew : ∃ userId address, db' =
        { db with outbox := db.outbox.insertNew (mail.row now userId address) } := by
      change enqueue P db mail now = some db' at h
      unfold enqueue at h
      split at h
      · split at h
        · exact ⟨_, _, (Option.some.inj h).symm⟩
        · cases h
      · exact ⟨_, _, (Option.some.inj h).symm⟩
    obtain ⟨userId, address, rfl⟩ := hnew
    refine .inr ⟨mail.row now userId address (db.outbox.seq + 1),
      ⟨mail, now, userId, address, rfl, rfl⟩, rfl, rfl, fun i => ?_⟩
    exact AutoTable.get?_insertNew fun _ => rfl
  | pick now unixepoch =>
    left
    obtain ⟨⟨p, db₁⟩, hp, rfl⟩ := Option.map_eq_some_iff.mp h
    obtain ⟨rfl, -⟩ := pick_cases hp
    exact ⟨seq_giveUpExpired, fun i => get?_afterPick⟩
  | record id outcome endedAt unixepoch =>
    left
    cases h
    exact ⟨seq_record, fun i => get?_record⟩
  | giveUpExpired now unixepoch =>
    left
    cases h
    exact ⟨seq_giveUpExpired, fun i => get?_giveUpExpired⟩
  | retention now unixepoch =>
    left
    cases h
    refine ⟨seq_giveUpExpired, fun i => ?_⟩
    change ((giveUpExpired K.kinds unixepoch db now).outbox.delete fun r => !r.unsent).get? i = _
    rw [get?_delete_outbox, get?_giveUpExpired]
    cases db.outbox.get? i with
    | none => rfl
    | some r => simp only [Option.bind_some, Bool.not_not, OutboxCall.onRow]
  | deleteAccount userId =>
    left
    cases h
    refine ⟨rfl, fun i => ?_⟩
    change (db.outbox.delete fun r => r.userId = some userId).get? i = _
    rw [get?_delete_outbox]
    cases db.outbox.get? i with
    | none => rfl
    | some r =>
      by_cases hu : r.userId = some userId <;> simp [OutboxCall.onRow, hu, Option.filter]

end Kohaku
