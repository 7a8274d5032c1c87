import Kohaku.Outbox.Rows

/-!
# Give-up actions

For which rows a call runs the give-up action of their kind. `runs` lists them in order; it is read
off `giveUp`, and `Observes.step` ties it back: an action that leaves a trace in the database leaves
exactly these.
-/

namespace Kohaku

open Sql

/-- The row is given up by the call. -/
def OutboxCall.givesUp (c : OutboxCall) (r : OutboxRow) : Bool :=
  match c with
  | pick now _ | giveUpExpired now _ | retention now _ => r.expired now
  | record id .failed endedAt _ => r.id = id && r.unsent && (r.retryAt endedAt).isNone
  | _ => false

/-- The row `giveUp` runs the action for, if it does. -/
def actionRun (kinds : List MailKind) (db : Db) (id : Nat) : List Nat :=
  match db.outbox.find? fun row => row.id = id && row.unsent with
  | none => []
  | some row =>
    match (findKind kinds row.kind).bind MailKind.giveUp with
    | some _ => [id]
    | none => []

/-- The same for a list of rows given up one after the other. -/
def actionRuns (kinds : List MailKind) (unixepoch : Time) (db : Db) : List Nat → List Nat
  | [] => []
  | id :: ids =>
    actionRun kinds db id ++ actionRuns kinds unixepoch (giveUp kinds unixepoch db id) ids

/-- The rows for which a call runs the give-up action of their kind, in order. -/
def OutboxCall.runs (K : OutboxKinds) (db : Db) : OutboxCall → List Nat
  | pick now unixepoch | giveUpExpired now unixepoch | retention now unixepoch =>
    actionRuns K.kinds unixepoch db (expiredIds db now)
  | record id .failed endedAt _ =>
    match db.outbox.find? fun row => row.id = id && row.unsent with
    | none => []
    | some row =>
      match nextAttempt (row.attempts + 1) endedAt (deadline row.queuedAt row.expiresAt) with
      | some _ => []
      | none => actionRun K.kinds { db with
          outbox := db.outbox.update (fun r => r.id = id)
            (fun r => { r with attempts := row.attempts + 1 }) (OutboxRow.id_tried row) } id
  | _ => []

variable {K : OutboxKinds} {db db' : Db} {i id : Nat} {r : OutboxRow} {unixepoch now : Time}
  {c : OutboxCall} {P : Str → Bool}

/-- The row with the id is unsent and its kind has an action. -/
def runnable (K : OutboxKinds) (db : Db) (i : Nat) : Bool :=
  (db.outbox.get? i).any fun r => r.unsent && K.hasAction r

theorem actionRun_eq : actionRun K.kinds db id = if runnable K db id then [id] else [] := by
  rw [actionRun, find?_unsent, runnable]
  cases hg : db.outbox.get? id with
  | none => rfl
  | some r =>
    cases hu : r.unsent with
    | false => simp [hu, Option.filter]
    | true =>
      cases ha : (findKind K.kinds r.kind).bind MailKind.giveUp <;>
        simp [hu, OutboxKinds.hasAction, ha, Option.filter]

theorem OutboxRow.unsent_of_giveUp? {s : OutboxRow} (h : r.giveUp? = some s) :
    s.unsent = false := by
  unfold giveUp? at h
  split at h
  · cases h
  · cases h
    rfl

theorem runnable_giveUp : runnable K (giveUp K.kinds unixepoch db id) i =
    (runnable K db i && i ≠ id) := by
  rw [runnable, get?_giveUp, runnable]
  cases hg : db.outbox.get? i with
  | none => rfl
  | some r =>
    have hid := id_of_get? hg
    by_cases hi : i = id
    · cases hu : r.unsent with
      | false => simp [hu]
      | true =>
        cases hs : r.giveUp? with
        | none => simp [hid, hi, hu, hs]
        | some s => simp [hid, hi, hu, hs, OutboxRow.unsent_of_giveUp? hs]
    · simp [hid, hi]

theorem count_actionRuns (ids : List Nat) : (actionRuns K.kinds unixepoch db ids).count i =
    if i ∈ ids ∧ runnable K db i = true then 1 else 0 := by
  induction ids generalizing db with
  | nil => simp [actionRuns]
  | cons id ids ih =>
    rw [actionRuns, List.count_append, ih, actionRun_eq, runnable_giveUp]
    by_cases hi : i = id
    · subst hi
      cases runnable K db i <;> simp
    · have hcount : (if runnable K db id then [id] else []).count i = 0 := by
        split <;> simp [Ne.symm hi]
      simp [hcount, hi]

theorem count_runs_failed {endedAt : Time} :
    ((OutboxCall.record i .failed endedAt unixepoch).runs K db).count i =
      if (db.outbox.get? i).any fun r =>
        (OutboxCall.record i .failed endedAt unixepoch).givesUp r && K.hasAction r then 1
          else 0 := by
  unfold OutboxCall.runs
  dsimp only
  rw [find?_unsent]
  cases hg : db.outbox.get? i with
  | none => rfl
  | some r =>
    obtain rfl := id_of_get? hg
    cases hu : r.unsent with
    | false => simp [hu, Option.filter, OutboxCall.givesUp]
    | true =>
      have hf : (db.outbox.get? r.id).filter OutboxRow.unsent = some r := by
        rw [hg, Option.filter_some_pos hu]
      rw [Option.filter_some_pos hu]
      dsimp only
      cases hn : nextAttempt (r.attempts + 1) endedAt (deadline r.queuedAt r.expiresAt) with
      | some next => simp [OutboxCall.givesUp, OutboxRow.retryAt, hn]
      | none =>
        dsimp only
        rw [actionRun_eq, runnable, get?_update_id _ hf, hg]
        have hretry : r.retryAt endedAt = none := hn
        have hsame : { r with attempts := r.attempts + 1 }.unsent = true ∧
            K.hasAction { r with attempts := r.attempts + 1 } = K.hasAction r := ⟨hu, rfl⟩
        cases ha : K.hasAction r <;> simp [OutboxCall.givesUp, hu, hretry, hsame, ha]

/-- A call runs the action of a row once if it gives the row up, else not at all. -/
theorem count_runs : (c.runs K db).count i =
    if (db.outbox.get? i).any fun r => c.givesUp r && K.hasAction r then 1 else 0 := by
  have hexpired : ∀ now unixepoch, (actionRuns K.kinds unixepoch db (expiredIds db now)).count i =
      if (db.outbox.get? i).any fun r => r.expired now && K.hasAction r then 1 else 0 := by
    intro now unixepoch
    rw [count_actionRuns, runnable]
    cases hg : db.outbox.get? i with
    | none => simp
    | some r =>
      refine if_congr ?_ rfl rfl
      rw [mem_expiredIds hg now]
      simp only [Option.any_some, Bool.and_eq_true, OutboxRow.expired]
      tauto
  cases c with
  | pick now unixepoch => exact hexpired now unixepoch
  | giveUpExpired now unixepoch => exact hexpired now unixepoch
  | retention now unixepoch => exact hexpired now unixepoch
  | enqueue | deleteAccount =>
    cases db.outbox.get? i <;> rfl
  | record id outcome endedAt unixepoch =>
    cases outcome with
    | sent => cases db.outbox.get? i <;> rfl
    | failed =>
      by_cases hi : i = id
      · subst hi
        exact count_runs_failed
      · have hruns : ((OutboxCall.record id .failed endedAt unixepoch).runs K db).count i = 0 := by
          simp only [OutboxCall.runs]
          split
          · rfl
          · split
            · rfl
            · rw [actionRun_eq]
              split <;> simp [Ne.symm hi]
        rw [hruns]
        cases hg : db.outbox.get? i with
        | none => rfl
        | some r => simp [OutboxCall.givesUp, id_of_get? hg, hi]

/-! ## Actions that leave a trace -/

/-- Every action adds the id of its row to `f`, which does not depend on the outbox. -/
structure Observes (K : OutboxKinds) (f : Db → List Nat) : Prop where
  action : ∀ kind ∈ K.kinds, ∀ action, kind.giveUp = some action → ∀ unixepoch db id,
    f (action unixepoch db id) = f db ++ [id]
  outbox : ∀ db outbox, f { db with outbox } = f db

namespace Observes

variable {f : Db → List Nat}

theorem giveUp (H : Observes K f) :
    f (giveUp K.kinds unixepoch db id) = f db ++ actionRun K.kinds db id := by
  unfold Kohaku.giveUp actionRun
  cases db.outbox.find? fun row => row.id = id && row.unsent with
  | none => simp
  | some row =>
    have hrow : ∀ (db : Db) o₁ o₂,
        f (if row.token then { db with outbox := o₁ } else { db with outbox := o₂ }) = f db := by
      intro db o₁ o₂
      split <;> exact H.outbox _ _
    refine (hrow _ _ _).trans ?_
    dsimp only
    cases ha : (findKind K.kinds row.kind).bind MailKind.giveUp with
    | none => simp
    | some action =>
      obtain ⟨kind, hk, hka⟩ := Option.bind_eq_some_iff.mp ha
      exact H.action kind (List.mem_of_find?_eq_some hk) action hka unixepoch db id

theorem foldl_giveUp (H : Observes K f) (ids : List Nat) :
    f (ids.foldl (Kohaku.giveUp K.kinds unixepoch) db) = f db ++
      actionRuns K.kinds unixepoch db ids := by
  induction ids generalizing db with
  | nil => simp [actionRuns]
  | cons id ids ih => rw [List.foldl_cons, ih, H.giveUp, actionRuns, List.append_assoc]

theorem record (H : Observes K f) {outcome : Delivery} {endedAt : Time} :
    f (record K.kinds unixepoch db id outcome endedAt) =
      f db ++ (OutboxCall.record id outcome endedAt unixepoch).runs K db := by
  unfold Kohaku.record
  cases outcome with
  | sent =>
    rw [OutboxCall.runs, List.append_nil]
    · cases db.outbox.find? fun row => row.id = id && row.unsent with
      | none => rfl
      | some row =>
        dsimp only
        split <;> exact H.outbox _ _
    all_goals simp
  | failed =>
    dsimp only [OutboxCall.runs]
    cases db.outbox.find? fun row => row.id = id && row.unsent with
    | none => simp
    | some row =>
      dsimp only
      cases nextAttempt (row.attempts + 1) endedAt (deadline row.queuedAt row.expiresAt) with
      | some next =>
        rw [List.append_nil]
        exact H.outbox _ _
      | none =>
        rw [H.giveUp]
        congr 1
        exact H.outbox _ _

/-- The traces a call leaves are those of the rows in `runs`. -/
theorem step (H : Observes K f) (hc : ∀ userId, c ≠ .deleteAccount userId)
    (h : c.step K P db = some db') : f db' = f db ++ c.runs K db := by
  cases c with
  | enqueue mail now =>
    change enqueue P db mail now = some db' at h
    rw [OutboxCall.runs, List.append_nil]
    · unfold enqueue at h
      split at h
      · split at h
        · cases h
          exact H.outbox _ _
        · cases h
      · cases h
        exact H.outbox _ _
    all_goals simp
  | pick now unixepoch =>
    obtain ⟨⟨p, db₁⟩, hp, rfl⟩ := Option.map_eq_some_iff.mp h
    obtain ⟨rfl, -⟩ := pick_cases hp
    exact (H.outbox _ _).trans (H.foldl_giveUp _)
  | record id outcome endedAt unixepoch =>
    cases h
    exact H.record
  | giveUpExpired now unixepoch =>
    cases h
    exact H.foldl_giveUp _
  | retention now unixepoch =>
    cases h
    exact (H.outbox _ _).trans (H.foldl_giveUp _)
  | deleteAccount userId => exact absurd rfl (hc userId)

end Observes

end Kohaku
