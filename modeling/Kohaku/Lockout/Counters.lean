import Mathlib

/-!
# Failure counters with a lock and a window

A machine that counts failed checks of two kinds. Failures of the first kind (`known = false`) are
counted in a row, and every `lockAfter`-th starts a lock of length `lockFor`; while it lasts, checks
of that kind are blocked. Failures of the second kind are counted in windows of length `windowFor`
that begin with the first of them; once `windowMax` are counted, checks of that kind are blocked
until the window ends. A check that passes resets both counts and ends the window but not the lock.

The inputs are checks with the time they use. The bounds are for inputs in order of time.
-/

namespace Lockout

/-- The limits. -/
structure Policy where
  lockAfter : Int
  lockFor : Int
  windowMax : Int
  windowFor : Int
  lockAfter_pos : 0 < lockAfter
  lockFor_nonneg : 0 ≤ lockFor
  windowMax_pos : 0 < windowMax
  windowFor_pos : 0 < windowFor

/-- The counters of an account: failures in a row without a known device, and failures of known
devices in a window. -/
structure Counters where
  failures : Int
  lockedUntil : Option Int
  windowFailures : Int
  windowStart : Option Int
  deriving DecidableEq

/-- What became of a check: it passed, failed and was counted, or changed nothing. -/
inductive Kind
  | passed
  | counted
  | ignored
  deriving DecidableEq, Repr

/-- A check: whether it comes with a known device, its clock value, and how it ends. -/
structure Check where
  known : Bool
  now : Int
  kind : Kind
  deriving DecidableEq, Repr

namespace Counters

variable (P : Policy) (c : Counters)

/-- The lock covers the clock value. -/
def locked (now : Int) : Bool := c.lockedUntil.any fun until_ => until_ > now

/-- The window of the known devices covers the clock value. -/
def windowOpen (now : Int) : Bool := c.windowStart.any fun start => start + P.windowFor > now

/-- A check is refused whatever it presents. -/
def blocked (known : Bool) (now : Int) : Bool :=
  if known then c.windowOpen P now && c.windowFailures ≥ P.windowMax else c.locked now

/-- The counters after a counted failure. -/
def count (known : Bool) (now : Int) : Counters :=
  if known then
    if c.windowOpen P now then { c with windowFailures := c.windowFailures + 1 }
    else { c with windowFailures := 1, windowStart := some now }
  else if c.failures + 1 ≥ P.lockAfter then
    { c with failures := 0, lockedUntil := some (now + P.lockFor) }
  else { c with failures := c.failures + 1 }

/-- The counters after a check that passed. -/
def pass : Counters := { c with failures := 0, windowFailures := 0, windowStart := none }

/-- A blocked check neither passes nor is counted. -/
def step (k : Check) : Option Counters :=
  match k.kind with
  | .ignored => some c
  | .passed => if c.blocked P k.known k.now then none else some c.pass
  | .counted => if c.blocked P k.known k.now then none else some (c.count P k.known k.now)

/-- Checks one after the other. -/
def run (ks : List Check) : Option Counters := ks.foldlM (step P) c

/-- The counts are within their limits. -/
structure Bounded : Prop where
  failures_nonneg : 0 ≤ c.failures
  failures_lt : c.failures < P.lockAfter
  window_nonneg : 0 ≤ c.windowFailures
  window_le : c.windowFailures ≤ P.windowMax

variable {P} {c c' : Counters} {k : Check} {ks : List Check}

/-! ## Steps -/

/-- Every way the machine can move. -/
inductive Moves (P : Policy) (c : Counters) : Check → Counters → Prop
  | ignored : Moves P c ⟨known, now, .ignored⟩ c
  | passed : c.blocked P known now = false → Moves P c ⟨known, now, .passed⟩ c.pass
  | failed : c.locked now = false → c.failures + 1 < P.lockAfter →
    Moves P c ⟨false, now, .counted⟩ { c with failures := c.failures + 1 }
  | locks : c.locked now = false → P.lockAfter ≤ c.failures + 1 →
    Moves P c ⟨false, now, .counted⟩ { c with failures := 0, lockedUntil := some (now + P.lockFor) }
  | inWindow : c.windowOpen P now = true → c.windowFailures < P.windowMax →
    Moves P c ⟨true, now, .counted⟩ { c with windowFailures := c.windowFailures + 1 }
  | opensWindow : c.windowOpen P now = false →
    Moves P c ⟨true, now, .counted⟩ { c with windowFailures := 1, windowStart := some now }

theorem moves_of_step (h : c.step P k = some c') : Moves P c k c' := by
  obtain ⟨known, now, kind⟩ := k
  cases kind with
  | ignored =>
    cases h
    exact .ignored
  | passed =>
    simp only [step] at h
    split at h
    · cases h
    · rename_i hb
      cases h
      exact .passed (by simpa using hb)
  | counted =>
    simp only [step] at h
    split at h
    · cases h
    rename_i hb
    cases h
    cases known with
    | false =>
      have hl : c.locked now = false := by simpa [blocked] using hb
      simp only [count, Bool.false_eq_true, if_false]
      split
      · exact .locks hl ‹_›
      · exact .failed hl (by omega)
    | true =>
      simp only [count, if_true]
      split
      · rename_i ho
        exact .inWindow ho (by simpa [blocked, ho] using hb)
      · rename_i ho
        exact .opensWindow (by simpa using ho)

theorem Bounded.moves (hc : c.Bounded P) (h : Moves P c k c') : c'.Bounded P := by
  obtain ⟨h₁, h₂, h₃, h₄⟩ := hc
  have := P.lockAfter_pos
  have := P.windowMax_pos
  cases h with
  | ignored => exact ⟨h₁, h₂, h₃, h₄⟩
  | passed => exact ⟨le_rfl, P.lockAfter_pos, le_rfl, P.windowMax_pos.le⟩
  | failed _ hlt => exact ⟨by dsimp only; omega, hlt, h₃, h₄⟩
  | locks => exact ⟨le_rfl, P.lockAfter_pos, h₃, h₄⟩
  | inWindow _ hlt => exact ⟨h₁, h₂, by dsimp only; omega, by dsimp only; omega⟩
  | opensWindow => exact ⟨h₁, h₂, by dsimp only; omega, P.windowMax_pos⟩

theorem run_append {ks₁ ks₂ : List Check} :
    c.run P (ks₁ ++ ks₂) = (c.run P ks₁).bind fun c => c.run P ks₂ := by
  simp [run, List.foldlM_append]

theorem run_snoc (h : c.run P (ks ++ [k]) = some c') :
    ∃ m, c.run P ks = some m ∧ Moves P m k c' := by
  rw [run_append, Option.bind_eq_some_iff] at h
  obtain ⟨m, hm, h⟩ := h
  refine ⟨m, hm, moves_of_step ?_⟩
  simpa [run] using h

theorem run_cons (h : c.run P (k :: ks) = some c') :
    ∃ m, Moves P c k m ∧ m.run P ks = some c' := by
  simp only [run, List.foldlM_cons, Option.bind_eq_bind, Option.bind_eq_some_iff] at h
  obtain ⟨m, hm, h⟩ := h
  exact ⟨m, moves_of_step hm, h⟩

theorem Bounded.run (hc : c.Bounded P) (h : c.run P ks = some c') : c'.Bounded P := by
  induction ks using List.reverseRecOn generalizing c' with
  | nil =>
    cases h
    exact hc
  | append_singleton ks k ih =>
    obtain ⟨m, hm, hk⟩ := run_snoc h
    exact (ih hm).moves hk

/-! ## The lock -/

/-- Counted failures of one kind in the `len` time units from `t`. -/
def countedIn (known : Bool) (t len : Int) (k : Check) : Bool :=
  k.kind = .counted && k.known = known && t ≤ k.now && k.now < t + len

/-- How many of them there are. -/
def tally (known : Bool) (t len : Int) (ks : List Check) : Nat :=
  (ks.filter (countedIn known t len)).length

variable {known : Bool} {t len s : Int}

theorem tally_snoc : tally known t len (ks ++ [k]) =
    tally known t len ks + if countedIn known t len k then 1 else 0 := by
  unfold tally
  rw [List.filter_append, List.length_append]
  cases h : countedIn known t len k <;> simp [h]

theorem tally_append {ks₁ ks₂ : List Check} :
    tally known t len (ks₁ ++ ks₂) = tally known t len ks₁ + tally known t len ks₂ := by
  simp [tally]

theorem tally_eq_zero (h : ∀ k ∈ ks, countedIn known t len k = false) :
    tally known t len ks = 0 := by
  unfold tally
  rw [List.filter_eq_nil_iff.mpr fun k hk => by simp [h k hk]]
  rfl

/-- In order of time, a last check comes after all others. -/
theorem le_of_sorted (hs : (ks ++ [k]).Pairwise fun a b => a.now ≤ b.now) :
    ks.Pairwise (fun a b => a.now ≤ b.now) ∧ ∀ k' ∈ ks, k'.now ≤ k.now := by
  rw [List.pairwise_append] at hs
  exact ⟨hs.1, fun k' hk' => hs.2.2 k' hk' k (by simp)⟩

/-- `n` failures were counted in the `lockFor` time units from `t`: they are at most the current
count, or the lock reaches beyond that time, or time itself is beyond (`late`). -/
structure LockInv (P : Policy) (t : Int) (n : Nat) (late : Prop) (c : Counters) : Prop where
  le : (n : Int) ≤ P.lockAfter
  where_ : (n : Int) ≤ c.failures ∨ (∃ u, c.lockedUntil = some u ∧ t + P.lockFor ≤ u) ∨ late

/-- The step lemma of the lock. Before `t` nothing is counted yet (`hzero`), and once time is
beyond it stays so (`hlate`). -/
theorem LockInv.moves {n : Nat} {late : Prop} (hI : LockInv P t n late c) (hc : c.Bounded P)
    (hk : Moves P c k c') (hzero : k.now < t → n = 0) (hlate : late → t + P.lockFor ≤ k.now)
    (hpass : k.kind = .passed → ¬(t ≤ k.now ∧ k.now < t + P.lockFor)) :
    LockInv P t (n + if countedIn false t P.lockFor k then 1 else 0)
      (late ∨ t + P.lockFor ≤ k.now) c' := by
  obtain ⟨hN, hwhere⟩ := hI
  have h₁ := hc.failures_nonneg
  have h₂ := hc.failures_lt
  have hP := P.lockFor_nonneg
  -- a check that is counted is not locked out, so a lock beyond the time means that time is, too
  have hunlocked : c.locked k.now = false →
      (n : Int) ≤ c.failures ∨ t + P.lockFor ≤ k.now := by
    intro hl
    rcases hwhere with h | ⟨u, hu, hge⟩ | h
    · exact .inl h
    · have : u ≤ k.now := by simpa [locked, hu] using hl
      exact .inr (hge.trans this)
    · exact .inr (hlate h)
  cases hk with
  | ignored | inWindow | opensWindow =>
    simp only [countedIn, reduceCtorEq, decide_false, decide_true, Bool.false_and, Bool.true_and,
      Bool.false_eq_true, if_false, Bool.true_eq_false]
    refine ⟨hN, ?_⟩
    rcases hwhere with h | h | h
    · exact .inl h
    · exact .inr (.inl h)
    · exact .inr (.inr (.inl h))
  | @passed kn now hb =>
    simp only [countedIn, reduceCtorEq, decide_false, Bool.false_and, Bool.false_eq_true, if_false]
    refine ⟨hN, ?_⟩
    by_cases hlt : now < t
    · left
      rw [hzero hlt]
      exact le_rfl
    · have := hpass rfl
      dsimp only at this
      exact .inr (.inr (.inr (by omega)))
  | @failed now hl hlt =>
    have hcase : (n : Int) ≤ c.failures ∨ t + P.lockFor ≤ now := hunlocked hl
    simp only [countedIn, decide_true, Bool.true_and, Bool.and_eq_true, decide_eq_true_eq]
    split
    · exact ⟨by push_cast; omega, .inl (by push_cast; omega)⟩
    · refine ⟨hN, ?_⟩
      rcases hcase with h | h
      · exact .inl (by dsimp only; omega)
      · exact .inr (.inr (.inr h))
  | @locks now hl hge =>
    have hcase : (n : Int) ≤ c.failures ∨ t + P.lockFor ≤ now := hunlocked hl
    simp only [countedIn, decide_true, Bool.true_and, Bool.and_eq_true, decide_eq_true_eq]
    split
    · rename_i hin
      refine ⟨by push_cast; omega, .inr (.inl ⟨_, rfl, ?_⟩)⟩
      omega
    · refine ⟨hN, ?_⟩
      by_cases hlt : now < t
      · left
        rw [hzero hlt]
        exact le_rfl
      · exact .inr (.inl ⟨_, rfl, by omega⟩)

/-- With no check passing in the `lockFor` time units from `t`, at most `lockAfter` failures are
counted there. -/
theorem run_lock (hc : c.Bounded P) (h : c.run P ks = some c')
    (hs : ks.Pairwise fun a b => a.now ≤ b.now)
    (hpass : ∀ k ∈ ks, k.kind = .passed → ¬(t ≤ k.now ∧ k.now < t + P.lockFor)) :
    LockInv P t (tally false t P.lockFor ks) (∃ k ∈ ks, t + P.lockFor ≤ k.now) c' := by
  induction ks using List.reverseRecOn generalizing c' with
  | nil =>
    cases h
    exact ⟨P.lockAfter_pos.le, .inl hc.failures_nonneg⟩
  | append_singleton ks k ih =>
    obtain ⟨m, hm, hk⟩ := run_snoc h
    obtain ⟨hs, hle⟩ := le_of_sorted hs
    have hI := ih hm hs fun k hk => hpass k (List.mem_append_left _ hk)
    have hzero : k.now < t → tally false t P.lockFor ks = 0 := by
      intro hlt
      refine tally_eq_zero fun k' hk' => ?_
      have := hle k' hk'
      simp only [countedIn, Bool.and_eq_false_iff, decide_eq_false_iff_not]
      omega
    have hnext := hI.moves (hc.run hm) hk hzero
      (fun ⟨k', hk', hge⟩ => hge.trans (hle k' hk')) (hpass k (by simp))
    rw [tally_snoc]
    refine ⟨hnext.le, hnext.where_.imp_right (.imp_right ?_)⟩
    rintro (⟨k', hk', hge⟩ | hge)
    · exact ⟨k', List.mem_append_left _ hk', hge⟩
    · exact ⟨k, by simp, hge⟩

/-- Under a lock until `u` no check of the first kind before `u` passes or is counted, and the
lock is not shortened. -/
theorem run_locked {u : Int} (hl : ∃ v, c.lockedUntil = some v ∧ u ≤ v) (h : c.run P ks = some c') :
    (∃ v, c'.lockedUntil = some v ∧ u ≤ v) ∧
      ∀ k ∈ ks, k.known = false → k.now < u → k.kind = .ignored := by
  induction ks generalizing c with
  | nil =>
    cases h
    exact ⟨hl, by simp⟩
  | cons k ks ih =>
    obtain ⟨m, hk, hm⟩ := run_cons h
    obtain ⟨v, hv, hge⟩ := hl
    have hnot : ∀ now, c.locked now = false → u ≤ now := by
      intro now hl
      have : v ≤ now := by simpa [locked, hv] using hl
      exact hge.trans this
    have hP := P.lockFor_nonneg
    have hnext : (∃ v, m.lockedUntil = some v ∧ u ≤ v) ∧
        (k.known = false → k.now < u → k.kind = .ignored) := by
      cases hk with
      | ignored => exact ⟨⟨v, hv, hge⟩, fun _ _ => rfl⟩
      | @passed known now hb =>
        refine ⟨⟨v, hv, hge⟩, fun hkn hlt => ?_⟩
        cases hkn
        exact absurd (hnot now (by simpa [blocked] using hb)) (not_le.mpr hlt)
      | @failed now hl => exact ⟨⟨v, hv, hge⟩, fun _ hlt => absurd (hnot now hl) (not_le.mpr hlt)⟩
      | @locks now hl =>
        have := hnot now hl
        exact ⟨⟨_, rfl, by omega⟩, fun _ hlt => absurd this (not_le.mpr hlt)⟩
      | inWindow | opensWindow => exact ⟨⟨v, hv, hge⟩, fun hkn _ => by cases hkn⟩
    obtain ⟨hend, hall⟩ := ih hnext.1 hm
    refine ⟨hend, fun k' hk' => ?_⟩
    rcases List.mem_cons.mp hk' with rfl | hk'
    · exact hnext.2
    · exact hall k' hk'

/-! ## The window -/

/-- `n` failures were counted since the window at `s` held `base`: the window still stands and
holds them, or time is beyond it. -/
structure WindowInv (P : Policy) (s base : Int) (n : Nat) (late : Prop) (c : Counters) : Prop where
  le : base + n ≤ P.windowMax
  where_ : (c.windowStart = some s ∧ base + n ≤ c.windowFailures) ∨ late

/-- The step lemma of the window. -/
theorem WindowInv.moves {base : Int} {n : Nat} {late : Prop} (hI : WindowInv P s base n late c)
    (hk : Moves P c k c') (hlate : late → s + P.windowFor ≤ k.now) (hpass : k.kind ≠ .passed) :
    WindowInv P s base (n + if countedIn true s P.windowFor k then 1 else 0)
      (late ∨ s + P.windowFor ≤ k.now) c' := by
  obtain ⟨hN, hwhere⟩ := hI
  cases hk with
  | ignored | failed | locks =>
    simp only [countedIn, reduceCtorEq, decide_false, decide_true, Bool.false_and, Bool.true_and,
      Bool.false_eq_true, if_false]
    exact ⟨hN, hwhere.imp_right .inl⟩
  | passed => exact absurd rfl hpass
  | @inWindow now ho hlt =>
    simp only [countedIn, decide_true, Bool.true_and, Bool.and_eq_true, decide_eq_true_eq]
    rcases hwhere with ⟨hw, hle⟩ | h
    · split
      · exact ⟨by push_cast; omega, .inl ⟨hw, by push_cast; omega⟩⟩
      · exact ⟨hN, .inl ⟨hw, by dsimp only; omega⟩⟩
    · have : s + P.windowFor ≤ now := hlate h
      rw [if_neg (by omega)]
      exact ⟨hN, .inr (.inl h)⟩
  | @opensWindow now ho =>
    simp only [countedIn, decide_true, Bool.true_and, Bool.and_eq_true, decide_eq_true_eq]
    -- a window that opens is not the one at `s`, which is over
    have hover : s + P.windowFor ≤ now := by
      rcases hwhere with ⟨hw, -⟩ | h
      · simpa [windowOpen, hw] using ho
      · exact hlate h
    rw [if_neg (by omega)]
    exact ⟨hN, .inr (.inr hover)⟩

/-- From a state whose window began at `s`. -/
theorem run_window_from (hc : c.Bounded P) (hw : c.windowStart = some s) (h : c.run P ks = some c')
    (hs : ks.Pairwise fun a b => a.now ≤ b.now) (hpass : ∀ k ∈ ks, k.kind ≠ .passed) :
    WindowInv P s c.windowFailures (tally true s P.windowFor ks)
      (∃ k ∈ ks, s + P.windowFor ≤ k.now) c' := by
  induction ks using List.reverseRecOn generalizing c' with
  | nil =>
    cases h
    exact ⟨by simpa [tally] using hc.window_le, .inl ⟨hw, by simp [tally]⟩⟩
  | append_singleton ks k ih =>
    obtain ⟨m, hm, hk⟩ := run_snoc h
    obtain ⟨hs, hle⟩ := le_of_sorted hs
    have hI := ih hm hs fun k hk => hpass k (List.mem_append_left _ hk)
    have hnext := hI.moves hk (fun ⟨k', hk', hge⟩ => hge.trans (hle k' hk')) (hpass k (by simp))
    rw [tally_snoc]
    refine ⟨hnext.le, hnext.where_.imp_right ?_⟩
    rintro (⟨k', hk', hge⟩ | hge)
    · exact ⟨k', List.mem_append_left _ hk', hge⟩
    · exact ⟨k, by simp, hge⟩

/-- A window that began at `s` was opened by a failure at the time `s`. -/
theorem exists_opens (h : c.run P ks = some c') (hc : c.windowStart ≠ some s)
    (hw : c'.windowStart = some s) :
    ∃ ks₁ ks₂ m, ks = ks₁ ++ ⟨true, s, .counted⟩ :: ks₂ ∧ c.run P ks₁ = some m ∧
      m.windowOpen P s = false ∧
      ({ m with windowFailures := 1, windowStart := some s } : Counters).run P ks₂ = some c' := by
  induction ks using List.reverseRecOn generalizing c' with
  | nil =>
    cases h
    exact absurd hw hc
  | append_singleton ks k ih =>
    obtain ⟨m, hm, hk⟩ := run_snoc h
    by_cases hmw : m.windowStart = some s
    · obtain ⟨ks₁, ks₂, m', rfl, hm', ho, hrun⟩ := ih hm hmw
      refine ⟨ks₁, ks₂ ++ [k], m', by simp, hm', ho, ?_⟩
      rw [List.append_assoc, List.cons_append, run_append, hm', Option.bind_some] at h
      have hstep : m'.step P ⟨true, s, .counted⟩ =
          some { m' with windowFailures := 1, windowStart := some s } := by
        simp [step, blocked, count, ho]
      simpa [run, hstep] using h
    · cases hk with
      | ignored | failed | locks | inWindow => exact absurd hw hmw
      | passed => cases hw
      | opensWindow ho =>
        cases hw
        exact ⟨ks, [], m, rfl, hm, ho, rfl⟩

/-- Right after a failure of the second kind at a time that is not before `s`, and until a check
passes, the window covers `s`. -/
theorem windowOpen_of_counted (h : c.run P ks = some c')
    (hs : ks.Pairwise fun a b => a.now ≤ b.now) (hpass : ∀ k ∈ ks, k.kind ≠ .passed)
    (hle : ∀ k ∈ ks, k.now ≤ s) (hex : ∃ k ∈ ks, countedIn true s len k = true) :
    c'.windowOpen P s = true := by
  induction ks using List.reverseRecOn generalizing c' with
  | nil => simp at hex
  | append_singleton ks k ih =>
    obtain ⟨m, hm, hk⟩ := run_snoc h
    obtain ⟨hs, hlast⟩ := le_of_sorted hs
    have hearlier : (∃ k ∈ ks, countedIn true s len k = true) → m.windowOpen P s = true :=
      ih hm hs (fun k hk => hpass k (List.mem_append_left _ hk))
        (fun k hk => hle k (List.mem_append_left _ hk))
    have hks := hle k (by simp)
    have hkp := hpass k (by simp)
    -- the failure is `k`, or it is before `k`, which then has the time `s` as well
    have hcase : countedIn true s len k = true ∨ ∃ k ∈ ks, countedIn true s len k = true := by
      obtain ⟨k', hk', hcnt⟩ := hex
      rcases List.mem_append.mp hk' with hk' | hk'
      · exact .inr ⟨k', hk', hcnt⟩
      · rw [List.mem_singleton.mp hk'] at hcnt
        exact .inl hcnt
    have hnow : k.now = s := by
      rcases hcase with hcnt | ⟨k', hk', hcnt⟩
      · simp only [countedIn, Bool.and_eq_true, decide_eq_true_eq] at hcnt
        omega
      · have := hlast k' hk'
        simp only [countedIn, Bool.and_eq_true, decide_eq_true_eq] at hcnt
        omega
    cases hk with
    | ignored | failed | locks =>
      rcases hcase with hcnt | hcnt
      · simp [countedIn] at hcnt
      · exact hearlier hcnt
    | passed => exact absurd rfl hkp
    | inWindow ho =>
      cases hnow
      exact ho
    | opensWindow =>
      cases hnow
      simpa [windowOpen] using P.windowFor_pos

/-- A stretch without a check that passes, in which the window at some point is the one from `s`:
at most `windowMax` failures of the second kind are counted in its time, and the window holds them
until time is beyond it. -/
theorem run_window {ks₁ ks₂ : List Check} {m : Counters} (hc : c.Bounded P)
    (h : c.run P (ks₁ ++ ks₂) = some c') (hs : (ks₁ ++ ks₂).Pairwise fun a b => a.now ≤ b.now)
    (hpass : ∀ k ∈ ks₁ ++ ks₂, k.kind ≠ .passed) (hm : c.run P ks₁ = some m)
    (hw : m.windowStart = some s) :
    WindowInv P s 0 (tally true s P.windowFor (ks₁ ++ ks₂))
      (∃ k ∈ ks₁ ++ ks₂, s + P.windowFor ≤ k.now) c' := by
  by_cases hcw : c.windowStart = some s
  · -- the window stands from the beginning
    have hI := run_window_from hc hcw h hs hpass
    have h0 := hc.window_nonneg
    have hle := hI.le
    exact ⟨by omega, hI.where_.imp_left fun ⟨hw, hle⟩ => ⟨hw, by omega⟩⟩
  · -- it is opened on the way, and nothing is counted in its time before
    obtain ⟨ks₀, ks₃, m', rfl, hm', ho, hrun⟩ := exists_opens hm hcw hw
    rw [List.append_assoc, List.cons_append] at hs hpass ⊢
    obtain ⟨hs₀, hs₁, hs₂⟩ := List.pairwise_append.mp hs
    have hopen : (⟨true, s, .counted⟩ : Check) ∈ ⟨true, s, .counted⟩ :: (ks₃ ++ ks₂) := by simp
    have hbefore : tally true s P.windowFor ks₀ = 0 := by
      refine tally_eq_zero fun k hk => ?_
      by_contra hcnt
      have := windowOpen_of_counted hm' hs₀ (fun k hk => hpass k (List.mem_append_left _ hk))
        (fun k hk => hs₂ k hk _ hopen) ⟨k, hk, by simpa using hcnt⟩
      rw [ho] at this
      cases this
    have hone : countedIn true s P.windowFor ⟨true, s, .counted⟩ = true := by
      simpa [countedIn] using P.windowFor_pos
    have hfrom : ({ m' with windowFailures := 1, windowStart := some s } : Counters).run P
        (ks₃ ++ ks₂) = some c' := by
      rw [run_append, hrun, Option.bind_some]
      rw [run_append, hm, Option.bind_some] at h
      exact h
    have hbound : Bounded P { m' with windowFailures := 1, windowStart := some s } :=
      (hc.run hm').moves (.opensWindow ho)
    have hI : WindowInv P s 1 (tally true s P.windowFor (ks₃ ++ ks₂)) _ c' :=
      run_window_from hbound rfl hfrom (List.pairwise_cons.mp hs₁).2
        (fun k hk => hpass k (List.mem_append_right _ (List.mem_cons_of_mem _ hk)))
    have htally : tally true s P.windowFor (ks₀ ++ ⟨true, s, .counted⟩ :: (ks₃ ++ ks₂)) =
        1 + tally true s P.windowFor (ks₃ ++ ks₂) := by
      rw [tally_append, hbefore, Nat.zero_add, ← List.singleton_append, tally_append]
      simp [tally, hone]
    have hle := hI.le
    rw [htally]
    refine ⟨by push_cast; omega, ?_⟩
    rcases hI.where_ with ⟨hw, hle⟩ | ⟨k, hk, hge⟩
    · exact .inl ⟨hw, by push_cast; omega⟩
    · exact .inr ⟨k, List.mem_append_right _ (List.mem_cons_of_mem _ hk), hge⟩

end Counters

end Lockout
