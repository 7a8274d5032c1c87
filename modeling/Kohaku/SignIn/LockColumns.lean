import Kohaku.Server.Steps

/-!
# What the lock columns are read for

Two databases are `Db.LockRel`ated when they agree on everything but `failed_logins`,
`locked_until`, `lockout_mailed_at` and the outbox, and no account is locked longer in the second
than in the first. Each function of the credential check takes related databases to related ones
and returns the same; the one place where the lock is read is a check without a known device.
-/

namespace Kohaku

open Sql

/-- The second row differs from the first in the lock columns only, and its lock is over whenever
the lock of the first is. -/
def UserRow.LockRel (u u' : UserRow) : Prop :=
  ∃ failed until_ mailed,
    u' = { u with failedLogins := failed, lockedUntil := until_, lockoutMailedAt := mailed } ∧
    ∀ now, u.locked now = false → u'.locked now = false

/-- The account a related row is read as. -/
def Account.LockRel (a a' : Account) : Prop :=
  ∃ until_, a' = { a with lockedUntil := until_ } ∧
    ∀ now, a.locked now = false → a'.locked now = false

/-- The hash a check may try differs only where the lock stops a check without a known device. -/
theorem Account.LockRel.usableHash {a a' : Account} (known : Bool) (now : Time) (h : a.LockRel a') :
    a'.usableHash known now = a.usableHash known now ∨
      known = false ∧ a.usableHash known now = none := by
  obtain ⟨until_, rfl, hl⟩ := h
  cases known with
  | true => exact .inl rfl
  | false =>
    cases hb : a.locked now with
    | true =>
      right
      simp [Account.usableHash, Account.blocked, hb]
    | false =>
      left
      have hb' := hl now hb
      simp [Account.usableHash, Account.blocked, hb, hb']

theorem UserRow.LockRel.refl (u : UserRow) : u.LockRel u :=
  ⟨u.failedLogins, u.lockedUntil, u.lockoutMailedAt, rfl, fun _ h => h⟩

namespace UserRow.LockRel

variable {A : App} {u u' : UserRow} {v : Verified} {text : Str} {now : Time}

theorem id (h : u.LockRel u') : u'.id = u.id := by
  obtain ⟨_, _, _, rfl, -⟩ := h
  rfl

theorem account (h : u.LockRel u') : u.toAccount.LockRel u'.toAccount := by
  obtain ⟨_, until_, _, rfl, hl⟩ := h
  exact ⟨until_, rfl, hl⟩

theorem blocked_device (h : u.LockRel u') : u'.blocked true now = u.blocked true now := by
  obtain ⟨_, _, _, rfl, -⟩ := h
  rfl

theorem unblocked {known : Bool} (h : u.LockRel u') (hb : u.blocked known now = false) :
    u'.blocked known now = false := by
  cases known with
  | true => rw [h.blocked_device, hb]
  | false =>
    obtain ⟨_, _, _, rfl, hl⟩ := h
    exact hl now hb

theorem passwordOk (h : u.LockRel u') :
    Credentials.passwordOk u'.toAccount v = Credentials.passwordOk u.toAccount v := by
  obtain ⟨_, _, _, rfl, -⟩ := h
  rfl

theorem secondFactor {db : Db} (h : u.LockRel u') :
    Credentials.secondFactor A db u'.toAccount text now =
      Credentials.secondFactor A db u.toAccount text now := by
  obtain ⟨_, _, _, rfl, -⟩ := h
  rfl

end UserRow.LockRel

/-- The databases differ at most in the lock columns of their accounts and in the outbox. -/
def Db.LockRel (db db' : Db) : Prop :=
  ∃ users outbox, db' = { db with users, outbox } ∧ Table.Rel UserRow.LockRel db.users users

/-- The second check differs from the first at most in that it verified a hash which the lock kept
the first from trying. -/
def Verified.LockRel (v v' : Verified) : Prop :=
  v' = v ∨ v.knownDevice = false ∧ v.hash = none ∧ ∃ hash, v' = { v with hash }

/-- Related results: the same value and related databases, or a rollback on both sides. -/
abbrev Db.LockRelOpt {α : Type} (x y : Option (α × Db)) : Prop :=
  Option.Rel (fun a b => a.1 = b.1 ∧ a.2.LockRel b.2) x y

variable {A : App} {db db' : Db} {uid : Nat} {now : Time}

namespace Db.LockRel

theorem refl (db : Db) : db.LockRel db := ⟨_, _, rfl, .refl UserRow.LockRel.refl⟩

theorem users (h : db.LockRel db') : Table.Rel UserRow.LockRel db.users db'.users := by
  obtain ⟨_, _, rfl, hu⟩ := h
  exact hu

theorem user? (h : db.LockRel db') (uid : Nat) :
    Option.Rel UserRow.LockRel (db.user? uid) (db'.user? uid) := by
  refine h.users.find? ?_
  rintro u _ ⟨_, _, _, rfl, -⟩
  rfl

theorem updateUser {f : UserRow → UserRow} {hf : ∀ u, (f u).id = u.id} (h : db.LockRel db')
    (hrow : ∀ {u u'}, UserRow.LockRel u u' → (f u).LockRel (f u')) :
    (db.updateUser uid f hf).LockRel (db'.updateUser uid f hf) := by
  obtain ⟨us, ob, rfl, hu⟩ := h
  refine ⟨_, _, rfl, hu.update hf hf ?_ hrow⟩
  rintro u _ ⟨_, _, _, rfl, -⟩
  rfl

theorem find (h : db.LockRel db') (l : Lookup) :
    Option.Rel Account.LockRel (Credentials.find db l) (Credentials.find db' l) := by
  have hmap : ∀ {x y : Option UserRow}, Option.Rel UserRow.LockRel x y →
      Option.Rel Account.LockRel (x.map UserRow.toAccount) (y.map UserRow.toAccount) := by
    intro x y hxy
    cases hxy with
    | none => exact .none
    | some hu => exact .some hu.account
  cases l with
  | email email =>
    refine hmap (h.users.find? ?_)
    rintro u _ ⟨_, _, _, rfl, -⟩
    rfl
  | id uid => exact hmap (h.user? uid)

/-! ## What is read -/

theorem currentRead (h : db.LockRel db') (hash : Bytes) (now : Time) :
    Kohaku.currentRead db' hash now = Kohaku.currentRead db hash now := by
  have hu := h.user?
  obtain ⟨us, ob, rfl, -⟩ := h
  unfold Kohaku.currentRead
  cases db.sessions.find? _ with
  | none => rfl
  | some s =>
    simp only [Option.bind_eq_bind, Option.bind_some]
    have hrel := hu s.userId
    generalize db.user? s.userId = x at hrel
    generalize Db.user? _ s.userId = y at hrel
    cases hrel with
    | none => rfl
    | some hrow =>
      obtain ⟨_, _, _, rfl, -⟩ := hrow
      rfl

/-- The read of a check. -/
theorem checkRead (h : db.LockRel db') (attempt : Attempt) (now : Time) :
    Option.Rel (fun x y => x.1 = y.1 ∧ x.2.LockRel y.2) (Credentials.checkRead A db attempt now)
      (Credentials.checkRead A db' attempt now) := by
  have hfind := h.find attempt.account
  unfold Credentials.checkRead
  generalize Credentials.find db attempt.account = x at hfind
  generalize Credentials.find db' attempt.account = y at hfind
  cases hfind with
  | none => exact .none
  | @some a a' ha =>
    obtain ⟨until_, rfl, hl⟩ := ha
    obtain ⟨us, ob, rfl, -⟩ := h
    refine .some ⟨rfl, ?_⟩
    have hk : ∀ hash, isKnownDevice { db with users := us, outbox := ob } a.id hash now =
        isKnownDevice db a.id hash now := fun _ => rfl
    simp only [hk]
    generalize attempt.device.any _ = known
    rcases Account.LockRel.usableHash known now ⟨until_, rfl, hl⟩ with heq | ⟨rfl, hnone⟩
    · left
      simp only [heq]
    · exact .inr ⟨rfl, by simp only [hnone]; rfl, _, rfl⟩

/-! ## What is written -/

theorem touch (h : db.LockRel db') (sid : Nat) (now : Time) :
    (Kohaku.touch db sid now).LockRel (Kohaku.touch db' sid now) := by
  obtain ⟨us, ob, rfl, hu⟩ := h
  exact ⟨us, ob, rfl, hu⟩

theorem resetCounters (h : db.LockRel db') (uid : Nat) :
    (Credentials.resetCounters db uid).LockRel (Credentials.resetCounters db' uid) := by
  refine h.updateUser ?_
  rintro u _ ⟨_, until_, mailed, rfl, hl⟩
  exact ⟨0, until_, mailed, rfl, hl⟩

theorem loginRun (h : db.LockRel db') (device : Option Bytes) (d : Draws) (a : Account)
    (now : Time) :
    Db.LockRelOpt (Work.loginRun A device d db a now) (Work.loginRun A device d db' a now) := by
  obtain ⟨us, ob, rfl, hu⟩ := h
  simp only [Work.loginRun, createSession, addDevice, isKnownDevice, Option.bind_eq_bind]
  split
  · exact .none
  · simp only [Option.bind_some]
    generalize Option.any _ device = known
    cases known with
    | true => exact .some ⟨rfl, _, _, rfl, hu⟩
    | false =>
      simp only [Bool.false_eq_true, if_false]
      split
      · exact .none
      · exact .some ⟨rfl, _, _, rfl, hu⟩

theorem setPassword (h : db.LockRel db') (uid : Nat) (phc : Str) (now : Time) :
    (passwordSet A db uid phc now).LockRel (passwordSet A db' uid phc now) := by
  have hset : (db.updateUser uid fun u => { u with passwordHash := some phc }).LockRel
      (db'.updateUser uid fun u => { u with passwordHash := some phc }) := by
    refine h.updateUser ?_
    rintro u _ ⟨failed, until_, mailed, rfl, hl⟩
    exact ⟨failed, until_, mailed, rfl, hl⟩
  obtain ⟨us, ob, rfl, -⟩ := h
  exact ⟨_, _, rfl, hset.users⟩

theorem disableTotp (h : db.LockRel db') (a : Account) (now : Time) :
    Db.LockRelOpt (Work.disableTotpRun db a now) (Work.disableTotpRun db' a now) := by
  have hset : (db.updateUser a.id fun u =>
      { u with totpNonce := none, totpLastStep := none }).LockRel
      (db'.updateUser a.id fun u => { u with totpNonce := none, totpLastStep := none }) := by
    refine h.updateUser ?_
    rintro u _ ⟨failed, until_, mailed, rfl, hl⟩
    exact ⟨failed, until_, mailed, rfl, hl⟩
  obtain ⟨us, ob, rfl, -⟩ := h
  exact .some ⟨rfl, _, _, rfl, hset.users⟩

theorem regenerateCodes (h : db.LockRel db') (d : Draws) (a : Account) (now : Time) :
    Db.LockRelOpt (Work.regenerateCodesRun A d db a now)
      (Work.regenerateCodesRun A d db' a now) := by
  obtain ⟨us, ob, rfl, hu⟩ := h
  simp only [Work.regenerateCodesRun, Recovery.replace, Option.bind_eq_bind]
  generalize Recovery.replaceLoop A a.id d.codes _ [] = codes
  cases codes with
  | none => exact .none
  | some codes => exact .some ⟨rfl, _, _, rfl, hu⟩

/-- The success work of a check reads no lock column. -/
theorem work (h : db.LockRel db') {a a' : Account} (ha : a.LockRel a') (work : Work) (d : Draws)
    (now : Time) : Db.LockRelOpt (work.run A d db a now) (work.run A d db' a' now) := by
  obtain ⟨until_, rfl, -⟩ := ha
  cases work with
  | login device => exact h.loginRun device d a now
  | changePassword phc =>
    have hset := h.setPassword (A := A) a.id phc now
    obtain ⟨us, ob, rfl, -⟩ := h
    exact .some ⟨rfl, _, _, rfl, hset.users⟩
  | startTotp sessionId =>
    obtain ⟨us, ob, rfl, hu⟩ := h
    exact .some ⟨rfl, _, _, rfl, hu⟩
  | disableTotp => exact h.disableTotp a now
  | regenerateCodes => exact h.regenerateCodes d a now

/-! ## The second factor and the counters -/

theorem codeAccepted (h : db.LockRel db') (uid : Nat) (seed : Bytes) (text : Str) (now : Time) :
    (Credentials.codeAccepted A db uid seed text now).1 =
        (Credentials.codeAccepted A db' uid seed text now).1 ∧
      (Credentials.codeAccepted A db uid seed text now).2.LockRel
        (Credentials.codeAccepted A db' uid seed text now).2 := by
  obtain ⟨us, ob, rfl, hu⟩ := h
  simp only [Credentials.codeAccepted]
  split
  · split
    · exact ⟨rfl, _, _, rfl, hu⟩
    · rename_i step _
      have hp : ∀ {u u' : UserRow}, u.LockRel u' →
          (decide (u.id = uid) && u.totpLastStep.all fun last => last < step) =
            (decide (u'.id = uid) && u'.totpLastStep.all fun last => last < step) := by
        rintro u _ ⟨_, _, _, rfl, -⟩
        rfl
      refine ⟨hu.any hp, _, _, rfl, hu.update (by intro _; rfl) (by intro _; rfl) hp ?_⟩
      rintro u _ ⟨failed, until_, mailed, rfl, hl⟩
      exact ⟨failed, until_, mailed, rfl, hl⟩
  · split
    · exact ⟨rfl, _, _, rfl, hu⟩
    · exact ⟨rfl, _, _, rfl, hu⟩

/-- A failure with a known device is counted alike. -/
theorem afterFailure {u u' : UserRow} (h : db.LockRel db') (hid : u'.id = u.id) (now : Time) :
    (Credentials.afterFailure A db u true now).LockRel
      (Credentials.afterFailure A db' u' true now) := by
  have hset : (db.updateUser u.id (Credentials.counted true now)
      (Credentials.counted_id true)).LockRel
      (db'.updateUser u.id (Credentials.counted true now) (Credentials.counted_id true)) := by
    refine h.updateUser ?_
    rintro u _ ⟨failed, until_, mailed, rfl, hl⟩
    refine ⟨failed, until_, mailed, ?_, ?_⟩ <;>
      simp only [Credentials.counted, if_true, Credentials.countDevice]
    · split <;> rfl
    · split <;> exact hl
  obtain ⟨us, ob, rfl, -⟩ := h
  refine ⟨_, ob, ?_, hset.users⟩
  unfold Credentials.afterFailure
  simp only [hid]
  rfl

/-! ## The deciding transaction -/

theorem secondFactor (h : db.LockRel db') (a : Account) (text : Str) (now : Time) :
    Db.LockRelOpt (Credentials.secondFactor A db a text now)
      (Credentials.secondFactor A db' a text now) := by
  unfold Credentials.secondFactor
  split
  · split
    · exact .none
    · exact .some ⟨rfl, h⟩
  · exact .some (h.codeAccepted ..)

/-- A check that is not a failure without a known device is decided alike. -/
theorem decide (h : db.LockRel db') (uid : Nat) (v : Verified) (now : Time)
    (work : Work) (d : Draws)
    (hnot : v.knownDevice = false → ∀ db₁, Credentials.decide A db uid v now
      (fun db a now => work.run A d db a now) ≠ some (.failure, db₁)) :
    Db.LockRelOpt (Credentials.decide A db uid v now fun db a now => work.run A d db a now)
      (Credentials.decide A db' uid v now fun db a now => work.run A d db a now) := by
  have huser := h.user? uid
  cases hu : db.user? uid with
  | none =>
    rw [hu] at huser
    cases hu' : db'.user? uid with
    | none =>
      rw [Credentials.decide_unknown hu, Credentials.decide_unknown hu']
      exact .some ⟨rfl, h⟩
    | some u' =>
      rw [hu'] at huser
      cases huser
  | some u =>
    rw [hu] at huser
    obtain ⟨u', hu', hrow⟩ : ∃ u', db'.user? uid = some u' ∧ u.LockRel u' := by
      generalize db'.user? uid = y at huser
      cases huser with
      | some hrow => exact ⟨_, rfl, hrow⟩
    cases hb : u.blocked v.knownDevice now with
    | true =>
      rw [Credentials.decide_blocked hu hb] at hnot ⊢
      cases hk : v.knownDevice with
      | false => exact absurd rfl (hnot hk _)
      | true =>
        rw [Credentials.decide_blocked hu' (by rw [hk] at hb ⊢; rw [hrow.blocked_device, hb])]
        exact .some ⟨rfl, h⟩
    | false =>
      rw [Credentials.decide_unblocked hu hb] at hnot ⊢
      rw [Credentials.decide_unblocked hu' (hrow.unblocked hb), hrow.passwordOk, hrow.secondFactor]
      -- a failure is one with a known device, and is counted alike
      have hfail : (v.knownDevice = false → False) →
          (Credentials.afterFailure A db u v.knownDevice now).LockRel
            (Credentials.afterFailure A db' u' v.knownDevice now) := by
        intro hk
        rw [Bool.eq_true_of_not_eq_false hk]
        exact h.afterFailure hrow.id now
      split
      · rename_i hok
        rw [if_pos hok] at hnot
        exact .some ⟨rfl, hfail fun hk => hnot hk _ rfl⟩
      · rename_i hok
        rw [if_neg hok] at hnot
        have hfac := h.secondFactor (A := A) u.toAccount v.code now
        generalize Credentials.secondFactor A db u.toAccount v.code now = x at hfac hnot
        generalize Credentials.secondFactor A db' u.toAccount v.code now = y at hfac
        cases hfac with
        | none => exact .some ⟨rfl, h⟩
        | @some x y hxy =>
          obtain ⟨ok, db₁⟩ := x
          obtain ⟨ok', db₁'⟩ := y
          obtain ⟨rfl, h₁⟩ := hxy
          cases ok with
          | false => exact .some ⟨rfl, hfail fun hk => hnot hk _ rfl⟩
          | true =>
            have hw := (h₁.resetCounters uid).work (A := A) hrow.account work d now
            dsimp only
            generalize work.run A d (Credentials.resetCounters db₁ uid) u.toAccount now = x at hw
            generalize work.run A d (Credentials.resetCounters db₁' uid) u'.toAccount now = y at hw
            cases hw with
            | none => exact .none
            | some hab => exact .some ⟨congrArg Outcome.success hab.1, hab.2⟩

/-- A failure without a known device lengthens the lock at most. -/
theorem afterFailure_left {u : UserRow} (h : db.LockRel db') (hu : db.user? u.id = some u)
    (hb : u.blocked false now = false) :
    (Credentials.afterFailure A db u false now).LockRel db' := by
  obtain ⟨us, ob, rfl, hus⟩ := h
  refine ⟨us, ob, rfl, hus.update_left (Credentials.counted_id false) ?_⟩
  intro r r' hr hrel hp
  have hid : r.id = u.id := by simpa using hp
  have hru : r = u := Table.eq_of_key_eq hr (Db.mem_of_user? hu) hid
  subst hru
  obtain ⟨failed, until_, mailed, rfl, hl⟩ := hrel
  refine ⟨failed, until_, mailed, ?_, ?_⟩ <;>
    simp only [Credentials.counted, Bool.false_eq_true, if_false, Credentials.countLogin]
  · split <;> rfl
  · split
    · -- the lock it starts covers every earlier one
      intro t ht
      refine hl t ?_
      have hfree : r.locked now = false := hb
      cases hr : r.lockedUntil with
      | none => simp [Account.locked, hr]
      | some until₀ =>
        simp only [Account.locked, hr, Option.any_some, decide_eq_false_iff_not, gt_iff_lt,
          not_lt] at hfree ht ⊢
        have hpos : 0 ≤ lockSeconds := by decide
        exact hfree.trans ((Int.le_add_of_nonneg_right hpos).trans ht)
    · exact hl

end Db.LockRel

end Kohaku
