import Kohaku.Outbox.Lifecycle

/-!
# The retry schedule

The worker attempts a row at a pick, and records how the attempt ended, unless a restart loses it.
While a row is unsent its next attempt is as late as the delays after its recorded failures make it,
and after a failure it is before the deadline. With the deadline at most a day after queuing, that
leaves room for fifteen failures.
-/

namespace Kohaku

open Sql

/-! ## The worker -/

/-- The database and the attempt in progress: the row and when the attempt started. -/
structure WorkerState where
  db : Db
  attempt : Option (Nat × Time)

/-- What happens to the outbox while the worker runs. -/
inductive WorkerStep
  | pick (now unixepoch : Time)
  | record (outcome : Delivery) (endedAt unixepoch : Time)
  /-- The server stops and starts again; an attempt that was not recorded is lost. -/
  | restart
  /-- A call of another part of the server. -/
  | other (c : OutboxCall)

/-- The call is the worker's. -/
def OutboxCall.ofWorker : OutboxCall → Bool
  | pick .. | record .. => true
  | _ => false

/-- A pick when nothing is attempted, the record of the attempt, or a call of another part. -/
def WorkerState.step (K : OutboxKinds) (addressParses : Str → Bool) (s : WorkerState) :
    WorkerStep → Option WorkerState
  | .pick now unixepoch =>
    if s.attempt.isSome then none
    else
      match Kohaku.pick K.kinds unixepoch s.db now with
      | some (.due row, db) => some ⟨db, some (row.id, now)⟩
      | some (.idle _, db) => some ⟨db, none⟩
      | none => some s
  | .record outcome endedAt unixepoch =>
    match s.attempt with
    | some (id, start) =>
      if start ≤ endedAt then some ⟨Kohaku.record K.kinds unixepoch s.db id outcome endedAt, none⟩
      else none
    | none => none
  | .restart => some ⟨s.db, none⟩
  | .other c =>
    if c.ofWorker then none else (c.step K addressParses s.db).map fun db => ⟨db, s.attempt⟩

/-- The step records a failure of the row. -/
def failsOn (i : Nat) (e : Lts.Step WorkerState WorkerStep) : Nat :=
  match e.label, e.pre.attempt with
  | .record .failed _ _, some (id, _) => if id = i && e.pre.db.unsent i then 1 else 0
  | _, _ => 0

/-- The failures of the row recorded so far. -/
def failures (i : Nat) (h : List (Lts.Step WorkerState WorkerStep)) : Nat := (h.map (failsOn i)).sum

/-- Seconds from queuing to the earliest start of the `k`-th attempt. -/
def earliestStart : Nat → Int
  | 0 | 1 => 0
  | 2 => 60
  | 3 => 360
  | 4 => 2160
  | k => 2160 + 7200 * (k - 4)

/-! ## The schedule -/

theorem earliestStart_succ (n : Nat) :
    earliestStart (n + 2) = earliestStart (n + 1) + retryDelays.getD
      (min n (retryDelays.length - 1)) 0 := by
  rcases Nat.lt_or_ge n 4 with hlt | hge
  · interval_cases n <;> rfl
  · obtain ⟨m, rfl⟩ := Nat.exists_eq_add_of_le' hge
    have hmin : min (m + 4) (retryDelays.length - 1) = 3 :=
      Nat.min_eq_right (Nat.le_add_left 3 (m + 1))
    have hdelay : retryDelays.getD 3 0 = 7200 := rfl
    rw [hmin, hdelay]
    simp only [earliestStart]
    push_cast
    ring

theorem lt_of_earliestStart {n : Nat} (h : earliestStart (n + 1) < maxAge) : n < 15 := by
  by_contra hn
  obtain ⟨m, rfl⟩ := Nat.exists_eq_add_of_le (Nat.le_of_not_lt hn)
  rw [show 15 + m + 1 = m + 16 by omega] at h
  simp only [earliestStart, maxAge] at h
  push_cast at h
  omega

variable {K : OutboxKinds} {P : Str → Bool} {db db' : Db} {c : OutboxCall} {i n : Nat}
  {r : OutboxRow} {s s' : WorkerState} {l : WorkerStep}

/-- The row is unsent, has failed `n` times, and waits as long as that takes. -/
structure OutboxRow.Waits (r : OutboxRow) (n : Nat) : Prop where
  attempts : r.attempts = n
  earliest : r.queuedAt + earliestStart (n + 1) ≤ r.nextAttemptAt
  before : 0 < n → r.nextAttemptAt < deadline r.queuedAt r.expiresAt

/-- An attempt of the row may start at `start`. -/
def OutboxRow.DueAt (r : OutboxRow) (start : Time) : Prop :=
  r.nextAttemptAt ≤ start ∧ start < deadline r.queuedAt r.expiresAt

theorem OutboxRow.Waits.start (h : r.Waits n) {start : Time} (hdue : r.DueAt start) :
    r.queuedAt + earliestStart (n + 1) ≤ start ∧ n < 15 := by
  have hstart := h.earliest.trans hdue.1
  refine ⟨hstart, lt_of_earliestStart ?_⟩
  have hage : start < r.queuedAt + maxAge := lt_of_lt_of_le hdue.2 (min_le_left _ _)
  exact lt_of_add_lt_add_left (hstart.trans_lt hage)

/-- A failure of an attempt that started when the row was due puts the next one off by the delay. -/
theorem OutboxRow.Waits.fail (h : r.Waits n) {start endedAt : Time} (hdue : r.DueAt start)
    (hle : start ≤ endedAt) {next : Time} (hnext : r.retryAt endedAt = some next) :
    { r with attempts := r.attempts + 1, nextAttemptAt := next }.Waits (n + 1) := by
  rw [retryAt, nextAttempt, Option.ite_none_right_eq_some, Option.some.injEq, h.attempts,
    Nat.add_sub_cancel] at hnext
  obtain ⟨hbefore, rfl⟩ := hnext
  refine ⟨congrArg (· + 1) h.attempts, ?_, fun _ => hbefore⟩
  change r.queuedAt + earliestStart (n + 2) ≤ _
  rw [earliestStart_succ, ← add_assoc]
  exact Int.add_le_add_right ((h.start hdue).1.trans hle) _

/-- A row that a call other than a record leaves unsent is unchanged or new. -/
theorem quiet_of_step (h : c.step K P db = some db') (hc : ∀ id outcome endedAt unixepoch,
    c ≠ .record id outcome endedAt unixepoch) (hr : db'.outbox.get? i = some r)
      (hu : r.unsent = true) :
    db.outbox.get? i = some r ∨ db.outbox.seq < i ∧ r.Waits 0 := by
  rcases get?_step h with ⟨-, hget⟩ | ⟨t, ⟨mail, now, userId, address, rfl, ht⟩, hid, -, hget⟩
  · rw [hget i] at hr
    obtain ⟨t, ht, hrow⟩ := Option.bind_eq_some_iff.mp hr
    left
    rw [ht]
    cases c with
    | enqueue => exact hrow
    | pick | retention =>
      rw [(OutboxRow.of_expire_unsent (Option.filter_eq_some_iff.mp hrow).1 hu).1]
    | giveUpExpired => rw [(OutboxRow.of_expire_unsent hrow hu).1]
    | record id outcome endedAt unixepoch => exact absurd rfl (hc id outcome endedAt unixepoch)
    | deleteAccount userId =>
      rw [OutboxCall.onRow, Option.ite_none_left_eq_some] at hrow
      exact hrow.2
  · rw [hget i] at hr
    split at hr
    · cases hr
      refine .inr ⟨by omega, ?_⟩
      rw [ht]
      exact ⟨rfl, (add_zero now).le, fun h => absurd h (Nat.lt_irrefl 0)⟩
    · exact .inl hr

/-! ## Steps and runs -/

/-- What holds of the row `i` after `n` recorded failures. -/
structure Scheduled (i n : Nat) (s : WorkerState) : Prop where
  le : n ≤ 15
  fresh : s.db.outbox.seq < i → n = 0 ∧ ∀ start, s.attempt ≠ some (i, start)
  waits : ∀ r, s.db.outbox.get? i = some r → r.unsent = true → r.Waits n
  due : ∀ start, s.attempt = some (i, start) → ∀ r, s.db.outbox.get? i = some r → r.unsent = true →
    r.DueAt start

/-- A call other than a record keeps the schedule; an attempt in progress is one that was, or of a
row that is due. -/
theorem Scheduled.quiet (h : Scheduled i n s) (hstep : c.step K P s.db = some db')
    (hc : ∀ id outcome endedAt unixepoch, c ≠ .record id outcome endedAt unixepoch)
    {attempt : Option (Nat × Time)}
    (hattempt : ∀ start, attempt = some (i, start) → s.attempt = some (i, start) ∨
      ∃ r, db'.outbox.get? i = some r ∧ r.DueAt start) : Scheduled i n ⟨db', attempt⟩ := by
  have hseq := seq_le_of_step hstep
  refine ⟨h.le, ?_, ?_, ?_⟩
  · intro hfresh
    obtain ⟨hn, hnone⟩ := h.fresh (hseq.trans_lt hfresh)
    refine ⟨hn, fun start hstart => ?_⟩
    rcases hattempt start hstart with hold | ⟨r, hr, -⟩
    · exact hnone start hold
    · exact absurd (le_seq_of_get? hr) (Nat.not_le_of_lt hfresh)
  · intro r hr hu
    rcases quiet_of_step hstep hc hr hu with hold | ⟨hlt, hnew⟩
    · exact h.waits r hold hu
    · rw [(h.fresh hlt).1]
      exact hnew
  · intro start hstart r hr hu
    rcases hattempt start hstart with hold | ⟨t, ht, hdue⟩
    · rcases quiet_of_step hstep hc hr hu with hrow | ⟨hlt, -⟩
      · exact h.due start hold r hrow hu
      · exact absurd hold ((h.fresh hlt).2 start)
    · dsimp only at hr
      rw [hr] at ht
      cases ht
      exact hdue

/-- What an attempt that is recorded leaves unsent: a row that failed and waits for the next one. -/
theorem OutboxRow.Waits.record {outcome : Delivery} {start endedAt : Time} {t : OutboxRow}
    (h : r.Waits n)
    (hdue : r.DueAt start) (hle : start ≤ endedAt) (ht : r.record? outcome endedAt = some t)
    (hu : t.unsent = true) : outcome = .failed ∧ t.Waits (n + 1) := by
  cases outcome with
  | sent =>
    rw [record?, sent?, Option.ite_none_left_eq_some] at ht
    cases ht.2
    cases hu
  | failed =>
    rw [record?] at ht
    split at ht
    next next hnext =>
      cases ht
      exact ⟨rfl, h.fail hdue hle hnext⟩
    next =>
      rw [unsent_of_giveUp? ht] at hu
      cases hu

theorem failsOn_record {id : Nat} {start endedAt unixepoch : Time} {outcome : Delivery}
    (hattempt : s.attempt = some (id, start)) :
    failsOn i ⟨s, .record outcome endedAt unixepoch, s'⟩ =
      if outcome = .failed ∧ id = i ∧ s.db.unsent i = true then 1 else 0 := by
  cases outcome <;> simp [failsOn, hattempt]

/-- An attempt of the row is recorded. -/
theorem Scheduled.record {start endedAt unixepoch : Time} {outcome : Delivery} (h : Scheduled i n s)
    (hattempt : s.attempt = some (i, start)) (hle : start ≤ endedAt) :
    Scheduled i (n + if outcome = .failed ∧ s.db.unsent i = true then 1 else 0)
      ⟨record K.kinds unixepoch s.db i outcome endedAt, none⟩ := by
  have hold : ∀ r, s.db.outbox.get? i = some r → r.unsent = true → r.Waits n ∧ r.DueAt start :=
    fun r hr hu => ⟨h.waits r hr hu, h.due start hattempt r hr hu⟩
  refine ⟨?_, ?_, ?_, fun _ hnone => by cases hnone⟩
  · split
    next hfails =>
      obtain ⟨r, hr, hu⟩ := Option.any_eq_true _ _ |>.mp hfails.2
      obtain ⟨hwaits, hdue⟩ := hold r hr hu
      exact (hwaits.start hdue).2
    next => exact h.le
  · intro hfresh
    dsimp only at hfresh
    rw [seq_record] at hfresh
    exact absurd hattempt ((h.fresh hfresh).2 start)
  · intro t ht hu
    rw [get?_record] at ht
    obtain ⟨r, hr, hrow⟩ := Option.bind_eq_some_iff.mp ht
    cases hunsent : r.unsent with
    | false =>
      rw [hunsent, Bool.and_false, if_neg Bool.false_ne_true] at hrow
      cases hrow
      rw [hunsent] at hu
      cases hu
    | true =>
      rw [hunsent, Bool.and_true, if_pos (decide_eq_true (id_of_get? hr))] at hrow
      obtain ⟨hwaits, hdue⟩ := hold r hr hunsent
      obtain ⟨hfailed, ht⟩ := hwaits.record hdue hle hrow hu
      rw [if_pos ⟨hfailed, (Db.unsent_of_get? hr).trans hunsent⟩]
      exact ht

/-- An attempt of another row is recorded. -/
theorem Scheduled.record_other {id : Nat} {endedAt unixepoch : Time} {outcome : Delivery}
    (h : Scheduled i n s)
    (hid : id ≠ i) : Scheduled i n
      ⟨Kohaku.record K.kinds unixepoch s.db id outcome endedAt, none⟩ := by
  have hget : (Kohaku.record K.kinds unixepoch s.db id outcome endedAt).outbox.get? i =
      s.db.outbox.get? i := by
    rw [get?_record]
    cases hr : s.db.outbox.get? i with
    | none => rfl
    | some r => simp [id_of_get? hr, hid.symm]
  refine ⟨h.le, fun hfresh => ?_, ?_, fun _ hnone => by cases hnone⟩
  · dsimp only at hfresh
    rw [seq_record] at hfresh
    exact ⟨(h.fresh hfresh).1, fun _ hnone => by cases hnone⟩
  · dsimp only
    rw [hget]
    exact h.waits

theorem Scheduled.step (h : Scheduled i n s) (hstep : s.step K P l = some s') :
    Scheduled i (n + failsOn i ⟨s, l, s'⟩) s' := by
  cases l with
  | pick now unixepoch =>
    rw [WorkerState.step, Option.ite_none_left_eq_some] at hstep
    obtain ⟨-, hpick⟩ := hstep
    change Scheduled i n s'
    split at hpick
    next row db hp =>
      cases hpick
      refine h.quiet (c := .pick now unixepoch) (P := P) (by rw [OutboxCall.step, hp]; rfl)
        (by simp) ?_
      intro start hstart
      cases hstart
      obtain ⟨r, hr, -, -, hdue⟩ := pick_due hp
      exact .inr ⟨r, hr, hdue⟩
    next db hp =>
      cases hpick
      exact h.quiet (c := .pick now unixepoch) (P := P) (by rw [OutboxCall.step, hp]; rfl) (by simp)
        fun _ hnone => by cases hnone
    next =>
      cases hpick
      exact h
  | record outcome endedAt unixepoch =>
    rw [WorkerState.step] at hstep
    split at hstep
    next id start hattempt =>
      rw [Option.ite_none_right_eq_some] at hstep
      obtain ⟨hle, hs'⟩ := hstep
      cases hs'
      rw [failsOn_record hattempt]
      by_cases hid : id = i
      · subst hid
        simp only [true_and]
        exact h.record hattempt hle
      · rw [if_neg fun hfails => hid hfails.2.1]
        exact h.record_other hid
    next => cases hstep
  | restart =>
    cases hstep
    exact ⟨h.le, fun hfresh => ⟨(h.fresh hfresh).1, fun _ hnone => by cases hnone⟩, h.waits,
      fun _ hnone => by cases hnone⟩
  | other c =>
    rw [WorkerState.step, Option.ite_none_left_eq_some, Option.map_eq_some_iff] at hstep
    obtain ⟨hc, db', hdb, rfl⟩ := hstep
    refine h.quiet hdb ?_ fun start hstart => .inl hstart
    rintro id outcome endedAt unixepoch rfl
    exact hc rfl

theorem failures_snoc (h : List (Lts.Step WorkerState WorkerStep))
    (e : Lts.Step WorkerState WorkerStep) : failures i (h ++ [e]) = failures i h + failsOn i e := by
  rw [failures, List.map_append, List.sum_append, List.map_singleton, List.sum_singleton, failures]

theorem Scheduled.run {h : List (Lts.Step WorkerState WorkerStep)} (hfresh : s.db.outbox.seq < i)
    (hidle : s.attempt = none) (H : Lts.Exec (WorkerState.step K P) s h s') :
    Scheduled i (failures i h) s' := by
  refine H.rec_snoc (fun h t => Scheduled i (failures i h) t) ?_ ?_
  · have hnone : s.db.outbox.get? i = none := by
      rw [Option.eq_none_iff_forall_ne_some]
      intro r hr
      exact absurd (le_seq_of_get? hr) (Nat.not_le_of_lt hfresh)
    refine ⟨Nat.zero_le 15, fun _ => ⟨rfl, ?_⟩, ?_, ?_⟩
    · rw [hidle]
      exact fun _ h => by cases h
    · rw [hnone]
      exact fun _ h => by cases h
    · rw [hidle]
      exact fun _ h => by cases h
  · intro h t l u _ ht hstep
    rw [failures_snoc]
    exact ht.step hstep

/-- The row of an attempt that starts. -/
theorem due_of_pick {now unixepoch : Time} (hstep : s.step K P (.pick now unixepoch) = some s')
    (hattempt : s'.attempt = some (i, now)) :
    ∃ r, s'.db.outbox.get? i = some r ∧ r.unsent = true ∧ r.DueAt now := by
  rw [WorkerState.step, Option.ite_none_left_eq_some] at hstep
  obtain ⟨hidle, hpick⟩ := hstep
  split at hpick
  next row db hp =>
    cases hpick
    cases hattempt
    obtain ⟨r, hr, hu, -, hdue⟩ := pick_due hp
    exact ⟨r, hr, hu, hdue⟩
  next =>
    cases hpick
    cases hattempt
  next =>
    cases hpick
    rw [hattempt] at hidle
    exact absurd rfl hidle

/-- Retry schedule: a row that is queued during the run fails at most fifteen times; the attempt
after its first `k - 1` recorded failures starts no earlier than the delays before it allow, and
before the deadline; and a failure that leaves it unsent puts the next attempt before the deadline.
Attempts that a restart loses leave no trace, so they count neither as failures nor among the
`k`. -/
theorem retry_schedule {s₀ : WorkerState} (hfresh : s₀.db.outbox.seq < i)
    (hidle : s₀.attempt = none)
    {h : List (Lts.Step WorkerState WorkerStep)} (H : Lts.Exec (WorkerState.step K P) s₀ h s) :
    failures i h ≤ 15 ∧
    (∀ now unixepoch s', s.step K P (.pick now unixepoch) = some s' → s'.attempt = some (i, now) →
      ∃ r, s'.db.outbox.get? i = some r ∧ r.unsent = true ∧ r.nextAttemptAt ≤ now ∧
        r.queuedAt + earliestStart (failures i h + 1) ≤ now ∧
        now < deadline r.queuedAt r.expiresAt) ∧
    (∀ endedAt unixepoch s' start, s.step K P (.record .failed endedAt unixepoch) = some s' →
      s.attempt = some (i, start) → s.db.unsent i = true → ∀ r, s'.db.outbox.get? i = some r →
      r.unsent = true → r.nextAttemptAt < deadline r.queuedAt r.expiresAt) := by
  have hs := Scheduled.run hfresh hidle H
  refine ⟨hs.le, ?_, ?_⟩
  · intro now unixepoch s' hstep hattempt
    obtain ⟨r, hr, hu, hdue⟩ := due_of_pick hstep hattempt
    exact ⟨r, hr, hu, hdue.1, (((hs.step hstep).waits r hr hu).start hdue).1, hdue.2⟩
  · intro endedAt unixepoch s' start hstep hattempt hunsent r hr hu
    have hs' := hs.step hstep
    rw [failsOn_record hattempt, if_pos ⟨rfl, rfl, hunsent⟩] at hs'
    exact (hs'.waits r hr hu).before (Nat.succ_pos _)

/-! ## Two failures and a restart -/

namespace TwoFailures

/-- An empty database and no attempt. -/
def start : WorkerState := ⟨⟨.empty, .empty, .empty, .empty, .empty, .empty, []⟩, none⟩

/-- A mail about a lock. -/
def mail : NewMail where
  kind := Mail.lockout
  recipient := .address "a@b.example".toList
  subject := []
  body := []
  placeholder := false

/-- The first attempt is lost. -/
def steps : List WorkerStep :=
  [.other (.enqueue mail 0), .pick 0 0, .restart, .pick 1 1, .record .failed 5 5, .pick 70 70,
    .record .failed 80 80]

/-- The run of these steps. -/
def history : List (Lts.Step WorkerState WorkerStep) :=
  Lts.history (WorkerState.step .server fun _ => true) start steps

theorem run : Lts.Exec (WorkerState.step .server fun _ => true) start history
    (Lts.last start history) :=
  .of_history (by decide)

/-- The third attempt starts. -/
def third : Option WorkerState :=
  (Lts.last start history).step .server (fun _ => true) (.pick 400 400)

end TwoFailures

open TwoFailures in
theorem retry_schedule_two_failures :
    failures 1 history = 2 ∧ ∃ s', third = some s' ∧ ∃ r, s'.db.outbox.get? 1 = some r ∧
      r.queuedAt + 360 ≤ 400 ∧ 400 < deadline r.queuedAt r.expiresAt := by
  have hfailures : failures 1 history = 2 := by decide
  have hattempt : third.bind WorkerState.attempt = some (1, 400) := by decide
  obtain ⟨s', hthird, hstart⟩ := Option.bind_eq_some_iff.mp hattempt
  obtain ⟨-, hpick, -⟩ := retry_schedule (i := 1) (by decide) (by decide) run
  obtain ⟨r, hr, -, -, hearliest, hdeadline⟩ := hpick 400 400 s' hthird hstart
  rw [hfailures] at hearliest
  exact ⟨hfailures, s', hthird, r, hr, hearliest, hdeadline⟩

end Kohaku
