import Kohaku.Outbox.GiveUp

/-!
# The life of an outbox row

Over every run of the calls that write the outbox: what a pick returns can be attempted, a row that
is sent, given up or deleted stays so, ids are never used again, no token is stored with an outcome,
and the give-up action of a row's kind runs at most once, exactly when the row is given up.
-/

namespace Kohaku

open Sql

variable {K : OutboxKinds} {db db' : Db} {i id : Nat} {r : OutboxRow} {unixepoch now : Time}
  {c : OutboxCall} {P : Str → Bool}

/-! ## What becomes of a row -/

/-- The call records that the row was sent. -/
def OutboxCall.sends (c : OutboxCall) (r : OutboxRow) : Bool :=
  match c with
  | record id .sent _ _ => r.id = id
  | _ => false

/-- The call deletes the account of the row. -/
def OutboxCall.deletesAccount (c : OutboxCall) (r : OutboxRow) : Bool :=
  match c with
  | deleteAccount userId => r.userId = some userId
  | _ => false

/-- What can become of a row: it keeps everything but its schedule and its outcome, and gets an
outcome only if it carries no token. -/
structure OutboxRow.Becomes (r s : OutboxRow) : Prop where
  same : s = { r with
    attempts := s.attempts, nextAttemptAt := s.nextAttemptAt, outcome := s.outcome }
  outcome : s.outcome = r.outcome ∨ s.unsent = false ∧ r.token = false

namespace OutboxRow

variable {s : OutboxRow}

theorem Becomes.refl : r.Becomes r := ⟨rfl, .inl rfl⟩

theorem Becomes.token (H : r.Becomes s) : s.token = r.token := by rw [H.same]

theorem Becomes.unsent (H : r.Becomes s) (hs : s.unsent = true) : r.unsent = true := by
  rcases H.outcome with heq | ⟨hu, -⟩
  · unfold OutboxRow.unsent at hs ⊢
    rwa [heq] at hs
  · rw [hu] at hs
    cases hs

theorem becomes_of_giveUp? (h : r.giveUp? = some s) : r.Becomes s := by
  unfold giveUp? at h
  cases ht : r.token with
  | true =>
    rw [if_pos ht] at h
    cases h
  | false =>
    rw [if_neg (by simp [ht])] at h
    cases h
    exact ⟨rfl, .inr ⟨rfl, ht⟩⟩

theorem becomes_of_sent? (h : r.sent? = some s) : r.Becomes s := by
  unfold sent? at h
  cases ht : r.token with
  | true =>
    rw [if_pos ht] at h
    cases h
  | false =>
    rw [if_neg (by simp [ht])] at h
    cases h
    exact ⟨rfl, .inr ⟨rfl, ht⟩⟩

theorem becomes_of_record? {outcome : Delivery} {endedAt : Time}
    (h : r.record? outcome endedAt = some s) : r.Becomes s := by
  unfold record? at h
  split at h
  · exact becomes_of_sent? h
  · split at h
    · cases h
      exact ⟨rfl, .inl rfl⟩
    · obtain ⟨hsame, hout⟩ := becomes_of_giveUp? h
      exact ⟨hsame, hout⟩

theorem any_unsent_giveUp? : r.giveUp?.any unsent = false := by
  cases hs : r.giveUp? with
  | none => rfl
  | some s => exact unsent_of_giveUp? hs

theorem expire_of_true (h : r.expired now = true) : r.expire now = r.giveUp? := if_pos h

theorem expire_of_false (h : r.expired now = false) : r.expire now = some r :=
  if_neg (by simp [h])

theorem becomes_of_expire (h : r.expire now = some s) : r.Becomes s := by
  cases he : r.expired now with
  | true =>
    rw [expire_of_true he] at h
    exact becomes_of_giveUp? h
  | false =>
    rw [expire_of_false he] at h
    cases h
    exact .refl

/-- A row that expiry leaves unsent was not expired. -/
theorem of_expire_unsent (h : r.expire now = some s) (hu : s.unsent = true) :
    s = r ∧ r.expired now = false := by
  cases he : r.expired now with
  | true =>
    rw [expire_of_true he] at h
    rw [unsent_of_giveUp? h] at hu
    cases hu
  | false =>
    rw [expire_of_false he] at h
    cases h
    exact ⟨rfl, rfl⟩

end OutboxRow

theorem OutboxCall.becomes_of_onRow {s : OutboxRow} (h : c.onRow r = some s) : r.Becomes s := by
  cases c with
  | enqueue =>
    cases h
    exact .refl
  | pick | retention => exact OutboxRow.becomes_of_expire (Option.filter_eq_some_iff.mp h).1
  | giveUpExpired => exact OutboxRow.becomes_of_expire h
  | record id outcome endedAt =>
    simp only [onRow] at h
    split at h
    · exact OutboxRow.becomes_of_record? h
    · cases h
      exact .refl
  | deleteAccount userId =>
    simp only [onRow] at h
    split at h
    · cases h
    · cases h
      exact .refl

theorem any_unsent_filter {o : Option OutboxRow} {p : OutboxRow → Bool}
    (h : o.any OutboxRow.unsent = false) : (o.filter p).any OutboxRow.unsent = false := by
  cases o with
  | none => rfl
  | some s =>
    cases hp : p s with
    | true => rwa [Option.filter_some_pos hp]
    | false =>
      rw [Option.filter_some_neg (by simp [hp])]
      rfl

/-- A row that is given up is not unsent any more. -/
theorem OutboxCall.not_unsent_of_givesUp (h : c.givesUp r = true) :
    (c.onRow r).any OutboxRow.unsent = false := by
  have hexpire : ∀ {now}, r.expired now = true → (r.expire now).any OutboxRow.unsent = false := by
    intro now h
    rw [OutboxRow.expire_of_true h]
    exact OutboxRow.any_unsent_giveUp?
  cases c with
  | enqueue | deleteAccount => cases h
  | pick now | retention now => exact any_unsent_filter (hexpire h)
  | giveUpExpired now => exact hexpire h
  | record id outcome endedAt =>
    cases outcome with
    | sent => cases h
    | failed =>
      simp only [givesUp, Bool.and_eq_true, Option.isNone_iff_eq_none] at h
      rw [onRow, if_pos (by rw [Bool.and_eq_true]; exact h.1), OutboxRow.record?, h.2]
      exact OutboxRow.any_unsent_giveUp?

/-- Only an unsent row is given up, and not by the calls that send it or delete its account. -/
theorem OutboxCall.of_givesUp (h : c.givesUp r = true) :
    r.unsent = true ∧ c.sends r = false ∧ c.deletesAccount r = false := by
  cases c with
  | enqueue | deleteAccount => cases h
  | pick now | retention now | giveUpExpired now =>
    refine ⟨?_, rfl, rfl⟩
    replace h : r.expired now = true := h
    rw [OutboxRow.expired, Bool.and_eq_true] at h
    exact h.1
  | record id outcome endedAt =>
    cases outcome with
    | sent => cases h
    | failed =>
      simp only [givesUp, Bool.and_eq_true] at h
      exact ⟨h.1.2, rfl, rfl⟩

/-- How a row that is no placeholder stops being unsent. -/
theorem OutboxCall.leaves_iff (hu : r.unsent = true) (hp : r.placeholder = false) :
    (c.onRow r).any OutboxRow.unsent = false ↔
      c.givesUp r = true ∨ c.sends r = true ∨ c.deletesAccount r = true := by
  cases hg : c.givesUp r with
  | true => simp [not_unsent_of_givesUp hg]
  | false =>
    cases c with
    | enqueue => simp [onRow, hu, sends, deletesAccount]
    | pick now | retention now | giveUpExpired now =>
      have hexp : r.expired now = false := hg
      simp [onRow, OutboxRow.expire_of_false hexp, hu, hp, sends, deletesAccount, Option.filter]
    | deleteAccount userId =>
      by_cases huid : r.userId = some userId <;> simp [onRow, huid, hu, sends, deletesAccount]
    | record id outcome endedAt =>
      by_cases hid : r.id = id
      · cases outcome with
        | sent =>
          have hsent : r.sent?.any OutboxRow.unsent = false := by
            unfold OutboxRow.sent?
            split <;> rfl
          simp [onRow, hid, hu, OutboxRow.record?, hsent, sends]
        | failed =>
          have hretry : (r.retryAt endedAt).isNone = false := by simpa [givesUp, hid, hu] using hg
          cases hn : r.retryAt endedAt with
          | none => simp [hn] at hretry
          | some next =>
            have hu' : { r with attempts := r.attempts + 1, nextAttemptAt := next }.unsent = true :=
              hu
            simp [onRow, ← hid, hu, OutboxRow.record?, hn, hu', sends, deletesAccount]
      · cases outcome <;> simp [onRow, hid, hu, sends, deletesAccount]

/-! ## Steps -/

/-- The row with the id is unsent. -/
def Db.unsent (db : Db) (i : Nat) : Bool := (db.outbox.get? i).any OutboxRow.unsent

theorem Db.unsent_of_get? (h : db.outbox.get? i = some r) : db.unsent i = r.unsent := by
  rw [Db.unsent, h, Option.any_some]

theorem seq_le_of_step (h : c.step K P db = some db') : db.outbox.seq ≤ db'.outbox.seq := by
  rcases get?_step h with ⟨hseq, -⟩ | ⟨_, -, -, hseq, -⟩
  · exact hseq.ge
  · exact hseq ▸ Nat.le_succ _

theorem le_seq_of_get? (h : db.outbox.get? i = some r) : i ≤ db.outbox.seq := by
  rw [← id_of_get? h]
  exact AutoTable.id_le_seq (Table.mem_of_get? h)

/-- An id that was given: what the call leaves of its row. -/
theorem get?_of_step (h : c.step K P db = some db') (hi : i ≤ db.outbox.seq) :
    db'.outbox.get? i = (db.outbox.get? i).bind c.onRow := by
  rcases get?_step h with ⟨-, hget⟩ | ⟨s, ⟨mail, now, _, _, rfl, -⟩, hs, -, hget⟩
  · exact hget i
  · rw [hget i, if_neg (by omega)]
    cases db.outbox.get? i <;> rfl

/-- Where a row comes from. -/
theorem becomes_of_step (h : c.step K P db = some db') (hr : db'.outbox.get? i = some r) :
    (∃ s, db.outbox.get? i = some s ∧ s.Becomes r) ∨ db.outbox.seq < i ∧ r.unsent = true := by
  rcases get?_step h with ⟨-, hget⟩ | ⟨s, ⟨mail, now, userId, address, rfl, hs⟩, hid, -, hget⟩
  · rw [hget i] at hr
    obtain ⟨s, hs, hrow⟩ := Option.bind_eq_some_iff.mp hr
    exact .inl ⟨s, hs, OutboxCall.becomes_of_onRow hrow⟩
  · rw [hget i] at hr
    split at hr
    · cases hr
      refine .inr ⟨by omega, ?_⟩
      rw [hs]
      rfl
    · exact .inl ⟨r, hr, .refl⟩

/-- What is not unsent under an id that was given stays so. -/
theorem not_unsent_of_step (h : c.step K P db = some db') (hi : i ≤ db.outbox.seq)
    (hu : db.unsent i = false) : db'.unsent i = false := by
  cases hr : db'.outbox.get? i with
  | none => simp [Db.unsent, hr]
  | some r =>
    rw [Db.unsent_of_get? hr]
    rcases becomes_of_step h hr with ⟨s, hs, hrow⟩ | ⟨hlt, -⟩
    · rw [Db.unsent_of_get? hs] at hu
      by_contra hr'
      rw [hrow.unsent (by simpa using hr')] at hu
      cases hu
    · omega

/-- A row that is picked can be attempted. -/
theorem pick_due {row : DueRow} (h : pick K.kinds unixepoch db now = some (.due row, db')) :
    ∃ r, db'.outbox.get? row.id = some r ∧ r.unsent = true ∧ r.placeholder = false ∧
      r.nextAttemptAt ≤ now ∧ now < deadline r.queuedAt r.expiresAt := by
  obtain ⟨rfl, ⟨r, hr, address, hrow⟩ | ⟨-, hidle⟩⟩ := pick_cases h
  · cases hrow
    obtain ⟨hmem, hdue⟩ := List.mem_filter.mp hr
    rw [Bool.and_eq_true, decide_eq_true_eq] at hdue
    have hget :=
      Table.get?_of_mem (show r ∈ (afterPick K.kinds unixepoch db now).outbox.toTable from hmem)
    refine ⟨r, hget, hdue.1, ?_, hdue.2, ?_⟩
    all_goals
      rw [get?_afterPick] at hget
      obtain ⟨s, -, hs⟩ := Option.bind_eq_some_iff.mp hget
      obtain ⟨hexp, hplace⟩ := Option.filter_eq_some_iff.mp hs
    · simpa [hdue.1, hdue.2] using hplace
    · obtain ⟨rfl, hnot⟩ := OutboxRow.of_expire_unsent hexp hdue.1
      simpa [OutboxRow.expired, hdue.1] using hnot
  · cases hidle

/-- An idle pick names a time to come. -/
theorem pick_idle {next : Time}
    (h : pick K.kinds unixepoch db now = some (.idle (some next), db')) : now < next := by
  obtain ⟨rfl, ⟨_, _, _, hrow⟩ | ⟨hdue, hidle⟩⟩ := pick_cases h
  · cases hrow
  · have hmin := List.min?_mem (Pick.idle.inj hidle).symm
    obtain ⟨r, hr, rfl⟩ := List.mem_map.mp hmin
    obtain ⟨hmem, hu⟩ := List.mem_filter.mp hr
    by_contra hle
    have : r ∈ dueRows (afterPick K.kinds unixepoch db now) now :=
      List.mem_filter.mpr
        ⟨hmem, by rw [Bool.and_eq_true, decide_eq_true_eq]; exact ⟨hu, not_lt.mp hle⟩⟩
    rw [hdue] at this
    cases this

/-! ## Events -/

/-- A call with the database before and after it. -/
abbrev OutboxEvent := Lts.Step Db OutboxCall

namespace OutboxEvent

/-- What a pick returns. -/
def picked (K : OutboxKinds) (e : OutboxEvent) : Option Pick :=
  match e.label with
  | .pick now unixepoch => (pick K.kinds unixepoch e.pre now).map Prod.fst
  | _ => none

/-- The row is returned to be attempted. -/
def returns (K : OutboxKinds) (e : OutboxEvent) (i : Nat) : Bool :=
  match e.picked K with
  | some (.due row) => row.id = i
  | _ => false

/-- The step records an attempt of the row. -/
def records (e : OutboxEvent) (i : Nat) : Bool :=
  match e.label with
  | .record id _ _ _ => id = i
  | _ => false

/-- A row with the id is new. -/
def inserts (e : OutboxEvent) (i : Nat) : Bool :=
  (e.pre.outbox.get? i).isNone && (e.post.outbox.get? i).isSome

/-- The rows whose give-up action runs. -/
def runs (K : OutboxKinds) (e : OutboxEvent) : List Nat := e.label.runs K e.pre

variable {e : OutboxEvent}

theorem pick_of_picked {p : Pick} (hs : e.label.step K P e.pre = some e.post)
    (hp : e.picked K = some p) : ∃ now unixepoch, e.label = .pick now unixepoch ∧
      pick K.kinds unixepoch e.pre now = some (p, e.post) := by
  unfold picked at hp
  split at hp
  · rename_i now unixepoch hl
    rw [hl] at hs
    obtain ⟨⟨p', db'⟩, hpick, rfl⟩ := Option.map_eq_some_iff.mp hp
    refine ⟨now, unixepoch, hl, ?_⟩
    simp only [OutboxCall.step, hpick, Option.map_some, Option.some.injEq] at hs
    rw [hpick, hs]
  · cases hp

theorem unsent_of_returns (hs : e.label.step K P e.pre = some e.post) (hr : e.returns K i = true) :
    e.post.unsent i = true := by
  unfold returns at hr
  split at hr
  · rename_i row hp
    obtain ⟨now, unixepoch, -, hpick⟩ := pick_of_picked hs hp
    obtain ⟨r, hget, hu, -⟩ := pick_due hpick
    rw [← of_decide_eq_true hr, Db.unsent_of_get? hget, hu]
  · cases hr

/-- Recording an attempt of a row that is not unsent changes nothing. -/
theorem eq_of_records (hs : e.label.step K P e.pre = some e.post) (hr : e.records i = true)
    (hu : e.pre.unsent i = false) : e.post = e.pre := by
  unfold records at hr
  split at hr
  · rename_i id outcome endedAt unixepoch hl
    obtain rfl := of_decide_eq_true hr
    rw [hl] at hs
    refine (Option.some.inj hs).symm.trans (record_of_none ?_)
    rw [Option.filter_eq_none_iff]
    intro r hget hr'
    rw [Db.unsent_of_get? hget, hr'] at hu
    cases hu
  · cases hr

theorem count_runs_le : (e.runs K).count i ≤ 1 := by
  rw [runs, count_runs]
  split <;> omega

/-- The action runs when a row that is no placeholder stops being unsent, unless it was sent or its
account deleted. -/
theorem mem_runs_iff (hs : e.label.step K P e.pre = some e.post) (hr : e.pre.outbox.get? i = some r)
    (hp : r.placeholder = false) (ha : K.hasAction r = true) :
    i ∈ e.runs K ↔ r.unsent = true ∧ e.post.unsent i = false ∧
      e.label.sends r = false ∧ e.label.deletesAccount r = false := by
  have hpost : e.post.unsent i = (e.label.onRow r).any OutboxRow.unsent := by
    rw [Db.unsent, get?_of_step hs (le_seq_of_get? hr), hr, Option.bind_some]
  have hmem : i ∈ e.runs K ↔ e.label.givesUp r = true := by
    rw [← List.count_pos_iff, runs, count_runs, hr, Option.any_some, ha, Bool.and_true]
    cases e.label.givesUp r <;> simp
  rw [hmem, hpost]
  constructor
  · intro hg
    obtain ⟨hu, hsend, hdel⟩ := OutboxCall.of_givesUp hg
    exact ⟨hu, OutboxCall.not_unsent_of_givesUp hg, hsend, hdel⟩
  · rintro ⟨hu, hleft, hsend, hdel⟩
    rcases (OutboxCall.leaves_iff hu hp).mp hleft with hg | h | h
    · exact hg
    · rw [hsend] at h
      cases h
    · rw [hdel] at h
      cases h

/-- A row whose action runs was unsent and is not any more. -/
theorem of_mem_runs (hs : e.label.step K P e.pre = some e.post) (hi : i ∈ e.runs K) :
    e.pre.unsent i = true ∧ e.post.unsent i = false ∧ i ≤ e.pre.outbox.seq := by
  rw [← List.count_pos_iff, runs, count_runs] at hi
  cases hr : e.pre.outbox.get? i with
  | none =>
    rw [hr] at hi
    cases hi
  | some r =>
    rw [hr, Option.any_some] at hi
    split at hi
    · rename_i hg
      have hg : e.label.givesUp r = true := (Bool.and_eq_true _ _ ▸ hg).1
      refine ⟨?_, ?_, le_seq_of_get? hr⟩
      · rw [Db.unsent_of_get? hr]
        exact (OutboxCall.of_givesUp hg).1
      · rw [Db.unsent, get?_of_step hs (le_seq_of_get? hr), hr, Option.bind_some]
        exact OutboxCall.not_unsent_of_givesUp hg
    · cases hi

end OutboxEvent

/-! ## Runs -/

section

variable {s t : Db} {h h₁ h₂ : List OutboxEvent}

/-- A row with the id was there at some point. -/
def Used (s : Db) (h : List OutboxEvent) (i : Nat) : Prop :=
  (s.outbox.get? i).isSome = true ∨ ∃ e ∈ h, (e.post.outbox.get? i).isSome = true

theorem seq_le_of_run (H : Lts.Exec (OutboxCall.step K P) s h t) : s.outbox.seq ≤ t.outbox.seq := by
  refine H.invariant (fun t => s.outbox.seq ≤ t.outbox.seq) le_rfl ?_
  intro t c u hle hs
  exact hle.trans (seq_le_of_step hs)

theorem le_seq_of_used (H : Lts.Exec (OutboxCall.step K P) s h t) (hused : Used s h i) :
    i ≤ t.outbox.seq := by
  rcases hused with hsome | ⟨e, he, hsome⟩
  · obtain ⟨r, hr⟩ := Option.isSome_iff_exists.mp hsome
    exact (le_seq_of_get? hr).trans (seq_le_of_run H)
  · obtain ⟨r, hr⟩ := Option.isSome_iff_exists.mp hsome
    obtain ⟨_, _, _, _, _, H'⟩ := H.of_mem he
    exact (le_seq_of_get? hr).trans (seq_le_of_run H')

theorem token_outcome_of_run (H : Lts.Exec (OutboxCall.step K P) s h t)
    (hs : ∀ r ∈ s.outbox, r.token = true → r.outcome = none) :
    ∀ r ∈ t.outbox, r.token = true → r.outcome = none := by
  refine H.invariant (fun t => ∀ r ∈ t.outbox, r.token = true → r.outcome = none) hs ?_
  intro t c u ih hstep r hr htok
  rcases becomes_of_step hstep (Table.get?_of_mem hr) with ⟨r₀, hr₀, hrow⟩ | ⟨-, hu⟩
  · rcases hrow.outcome with heq | ⟨-, hnot⟩
    · rw [heq]
      exact ih r₀ (Table.mem_of_get? hr₀) (hrow.token ▸ htok)
    · rw [← hrow.token, htok] at hnot
      cases hnot
  · exact of_decide_eq_true hu

/-- An action runs at most once for a row. -/
theorem count_runs_of_run (H : Lts.Exec (OutboxCall.step K P) s h t) :
    (h.flatMap (OutboxEvent.runs K)).count i ≤ 1 := by
  rw [List.count_flatMap]
  refine H.once _ (fun db => i ≤ db.outbox.seq ∧ db.unsent i = false) ?_ ?_ ?_
  · intro e _
    exact OutboxEvent.count_runs_le
  · intro e hs hne
    obtain ⟨-, hu, hi⟩ :=
      OutboxEvent.of_mem_runs hs (List.count_pos_iff.mp (Nat.pos_of_ne_zero hne))
    exact ⟨hi.trans (seq_le_of_step hs), hu⟩
  · rintro e hs ⟨hi, hu⟩
    refine ⟨⟨hi.trans (seq_le_of_step hs), not_unsent_of_step hs hi hu⟩, ?_⟩
    refine List.count_eq_zero.mpr fun hmem => ?_
    rw [(OutboxEvent.of_mem_runs hs hmem).1] at hu
    cases hu

/-- **The life of an outbox row**, over every run of the calls that write the outbox. A pick returns
only rows that can be attempted, and is idle until a time to come. A row that is not unsent any more
is not returned again, recording an attempt of it changes nothing, and its id is not given again; a
row stays the same mail. No token is stored with an outcome. The give-up action of a row that is no
placeholder runs exactly when it stops being unsent without being sent or losing its account, and at
most once. -/
theorem outbox_row_lifecycle (K : OutboxKinds) (P : Str → Bool) {s t : Db} {h : List OutboxEvent}
    (hs : ∀ r ∈ s.outbox, r.token = true → r.outcome = none)
    (H : Lts.Exec (OutboxCall.step K P) s h t) :
    (∀ e ∈ h, ∀ now unixepoch, e.label = .pick now unixepoch →
      (∀ row, OutboxEvent.picked K e = some (.due row) → ∃ r, e.post.outbox.get? row.id = some r ∧
        r.unsent = true ∧ r.placeholder = false ∧ r.nextAttemptAt ≤ now ∧
        now < deadline r.queuedAt r.expiresAt) ∧
      ∀ next, OutboxEvent.picked K e = some (.idle (some next)) → now < next) ∧
    (∀ h₁ e h₂, h = h₁ ++ e :: h₂ → ∀ i, Used s h₁ i →
      OutboxEvent.inserts e i = false ∧
      (e.pre.unsent i = false →
        OutboxEvent.returns K e i = false ∧ (OutboxEvent.records e i = true → e.post = e.pre))) ∧
    (∀ e ∈ h, ∀ i r r', e.pre.outbox.get? i = some r → e.post.outbox.get? i = some r' →
      r.Becomes r') ∧
    (∀ r ∈ t.outbox, r.token = true → r.outcome = none) ∧
    (∀ e ∈ h, ∀ i r, e.pre.outbox.get? i = some r → r.placeholder = false → K.hasAction r = true →
      (i ∈ OutboxEvent.runs K e ↔ r.unsent = true ∧ e.post.unsent i = false ∧
        e.label.sends r = false ∧ e.label.deletesAccount r = false)) ∧
    (∀ i, (h.flatMap (OutboxEvent.runs K)).count i ≤ 1) ∧
    ∀ f, Observes K f → ∀ e ∈ h, (∀ userId, e.label ≠ .deleteAccount userId) →
      f e.post = f e.pre ++ OutboxEvent.runs K e := by
  refine ⟨?_, ?_, ?_, token_outcome_of_run H hs, ?_, fun i => count_runs_of_run H, ?_⟩
  · intro e he now unixepoch hl
    have hstep := H.step_of_mem he
    constructor
    · intro row hp
      obtain ⟨now', unixepoch', hl', hpick⟩ := OutboxEvent.pick_of_picked hstep hp
      cases hl.symm.trans hl'
      exact pick_due hpick
    · intro next hp
      obtain ⟨now', unixepoch', hl', hpick⟩ := OutboxEvent.pick_of_picked hstep hp
      cases hl.symm.trans hl'
      exact pick_idle hpick
  · rintro h₁ e h₂ rfl i hused
    obtain ⟨H₁, hstep, -⟩ := H.split
    have hi := le_seq_of_used H₁ hused
    refine ⟨?_, fun hu => ⟨?_, fun hrec => OutboxEvent.eq_of_records hstep hrec hu⟩⟩
    · unfold OutboxEvent.inserts
      rw [get?_of_step hstep hi]
      cases e.pre.outbox.get? i <;> rfl
    · by_contra hret
      have hpost := OutboxEvent.unsent_of_returns hstep (by simpa using hret)
      rw [not_unsent_of_step hstep hi hu] at hpost
      cases hpost
  · intro e he i r r' hr hr'
    have hstep := H.step_of_mem he
    rw [get?_of_step hstep (le_seq_of_get? hr), hr] at hr'
    exact OutboxCall.becomes_of_onRow hr'
  · intro e he i r hr hp ha
    exact OutboxEvent.mem_runs_iff (H.step_of_mem he) hr hp ha
  · intro f hf e he hdel
    exact hf.step hdel (H.step_of_mem he)

end

/-! ## A reset link that is never delivered -/

namespace UndeliveredLink

/-- A mail of a kind. -/
def mail (kind : MailKind) (placeholder : Bool) : NewMail where
  kind := kind
  recipient := .address "a@b.example".toList
  subject := []
  body := []
  placeholder := placeholder

/-- An empty database. -/
def start : Db := ⟨.empty, .empty, .empty, .empty, .empty, .empty, []⟩

/-- One attempt fails, one record is lost, and the third pick comes after the link expired. -/
def calls : List OutboxCall :=
  [.enqueue (mail Mail.resetLink false) 0, .enqueue (mail Mail.resetLink true) 5, .pick 10 10,
    .record 1 .failed 20 20, .pick 30 30, .pick 80 80, .pick 4000 4000, .record 1 .sent 4010 4010,
    .enqueue (mail Mail.lockout false) 4020, .pick 4030 4030, .record 3 .sent 4040 4040,
    .retention 5000 5000]

/-- The run of these calls. -/
def history : List OutboxEvent := Lts.history (OutboxCall.step .server fun _ => true) start calls

theorem run : Lts.Exec (OutboxCall.step .server fun _ => true) start history
    (Lts.last start history) :=
  .of_history (by decide)

end UndeliveredLink

open UndeliveredLink in
theorem outbox_row_lifecycle_undelivered_link :
    history.map (fun e => (List.range 4).filter (OutboxEvent.returns .server e)) =
      [[], [], [1], [], [], [1], [], [], [], [3], [], []] ∧
    history.map (OutboxEvent.runs .server) = [[], [], [], [], [], [], [1], [], [], [], [], []] ∧
    ∀ i, (history.flatMap (OutboxEvent.runs .server)).count i ≤ 1 := by
  refine ⟨by decide, by decide, ?_⟩
  exact (outbox_row_lifecycle .server (fun _ => true) (by simp [start]) run).2.2.2.2.2.1

end Kohaku
