import Kohaku.Limits.Rate

/-!
# Runs of limiter calls

The limiter with the time of its last call, as a transition system: any calls of `admit`,
`admit_with` and `sweep` at nondecreasing times. A step moves each bucket in one of the ways of a
token bucket: not at all, dropped when full, or charged with one request.
-/

namespace Kohaku.Limits

open TokenBucket

/-- A call of the limiter. `request d now extra` is a call of `admit_with` whose `extra_admits`
answers `extra`; a call of `admit` is one whose extra answer is `true`. -/
inductive Call
  | request (d : Demand) (now : Instant) (extra : Bool)
  | sweep (now : Instant)

namespace Call

/-- The clock value of a call. -/
def now : Call → Instant
  | request _ now _ => now
  | sweep now => now

/-- What is asked for. -/
def demand? : Call → Option Demand
  | request d _ _ => some d
  | sweep _ => none

end Call

/-- The answer of a call (a sweep has none) and the limiter after it. -/
def Limiter.call (l : Limiter) : Call → Bool × Limiter
  | .request d now extra => l.admitWith d now fun _ => extra
  | .sweep now => (false, l.sweep now)

/-- The limiter and the time of the last call. -/
structure Clocked where
  limiter : Limiter
  clock : Instant

namespace Clocked

/-- A new limiter, not called yet. -/
def new (start : Instant) : Clocked := ⟨.new start, 0⟩

/-- The time of the last call since the limiter's start. -/
def elapsed (s : Clocked) : Duration := s.limiter.elapsed s.clock

/-- A call, unless the clock runs backwards. -/
def step (s : Clocked) (c : Call) : Option Clocked :=
  if s.clock ≤ c.now then some ⟨(s.limiter.call c).2, c.now⟩ else none

end Clocked

/-- A call with the limiter before and after it. -/
abbrev Event := Lts.Step Clocked Call

/-! ## What a call is charged to -/

namespace Event

/-- The clock value of a call. -/
def now (e : Event) : Instant := e.label.now

/-- The request was admitted. -/
def admitted (e : Event) : Bool := (e.pre.limiter.call e.label).1

/-- The bucket after the step is the one before it, full if there was none, with one token taken. -/
def takes (e : Event) (pre post : Option Bucket) (budget : Budget) : Bool :=
  post = some ((Bucket.orFull pre budget e.post.elapsed).take e.post.elapsed)

/-- The call admits a request for `k` and charges it to the bucket of `k`. -/
def charges (e : Event) (k : Key) : Bool :=
  e.admitted && e.label.demand?.any fun d => d.keys.any fun (key, budget) =>
    key = k && e.takes (e.pre.limiter.buckets.lookup k) (e.post.limiter.buckets.lookup k) budget

/-- The call admits a request and charges it to the overflow bucket `o`. -/
def chargesOverflow (e : Event) (o : Overflow) : Bool :=
  e.admitted && e.label.demand?.any fun d => d.overflow.1 = o &&
    e.takes (e.pre.limiter.overflow.lookup o) (e.post.limiter.overflow.lookup o) d.overflow.2

end Event

/-! ## Steps -/

/-- What a call does to the limiter. -/
inductive Limiter.Does (l : Limiter) : Call → Bool → Limiter → Prop
  | sweep : Does l (.sweep now) false (l.sweep now)
  | reject : l.admitted d (l.elapsed now) (fun _ => extra) = false →
    Does l (.request d now extra) false l
  | grant : l.admitted d (l.elapsed now) (fun _ => extra) = true →
    Does l (.request d now extra) true { l with
      buckets := l.takeKeys d (l.elapsed now), overflow := l.takeOverflow d (l.elapsed now) }

variable {l : Limiter} {s s' : Clocked} {c : Call} {d : Demand} {e : Event} {k : Key}
  {o : Overflow} {B : Budget}

theorem Limiter.call_does : l.Does c (l.call c).1 (l.call c).2 := by
  cases c with
  | sweep now => exact .sweep
  | request d now extra =>
    change l.Does _ (l.admitWith d now fun _ => extra).1 (l.admitWith d now fun _ => extra).2
    cases h : l.admitted d (l.elapsed now) (fun _ => extra) with
    | true =>
      rw [admitWith_of_true h]
      exact .grant h
    | false =>
      rw [admitWith_of_false h]
      exact .reject h

theorem Limiter.start_call : (l.call c).2.start = l.start := by
  cases c with
  | sweep => rfl
  | request => exact start_admitWith

namespace Clocked

theorem step_eq_some : s.step c = some s' ↔ s.clock ≤ c.now ∧
    s' = ⟨(s.limiter.call c).2, c.now⟩ := by
  unfold step
  by_cases h : s.clock ≤ c.now <;> simp [h, eq_comm]

theorem start_of_step (h : s.step c = some s') : s'.limiter.start = s.limiter.start := by
  rw [(step_eq_some.mp h).2]
  exact Limiter.start_call

/-- The time of a step, counted from the limiter's start. -/
theorem elapsed_of_step (h : s.step c = some s') : s'.elapsed = s.limiter.elapsed c.now := by
  obtain ⟨-, rfl⟩ := step_eq_some.mp h
  simp only [elapsed, Limiter.elapsed, Limiter.start_call]

theorem elapsed_le (h : s.step c = some s') : s.elapsed ≤ s'.elapsed := by
  rw [elapsed_of_step h]
  exact Nat.sub_le_sub_right (step_eq_some.mp h).1 _

end Clocked

namespace Event

/-- A step is a call and what it does. -/
theorem does (h : e.pre.step e.label = some e.post) :
    e.pre.limiter.Does e.label e.admitted e.post.limiter := by
  obtain ⟨-, hpost⟩ := Clocked.step_eq_some.mp h
  rw [hpost]
  exact Limiter.call_does

theorem elapsed_post (h : e.pre.step e.label = some e.post) :
    e.post.elapsed = e.pre.limiter.elapsed e.now :=
  Clocked.elapsed_of_step h

/-- A rejected request changes no bucket. -/
theorem limiter_of_rejected (h : e.pre.step e.label = some e.post)
    (hd : e.label.demand? = some d) (hadm : e.admitted = false) :
    e.post.limiter = e.pre.limiter := by
  have hdoes := does h
  rw [hadm] at hdoes
  generalize e.label = c, e.post.limiter = l' at hdoes hd
  cases hdoes with
  | sweep => cases hd
  | reject => rfl

/-- An admitted request for `k`: its bucket after the step. -/
theorem lookup_of_admitted (h : e.pre.step e.label = some e.post)
    (hd : e.label.demand? = some d) (hadm : e.admitted = true) (hk : (k, B) ∈ d.keys) :
    e.post.limiter.buckets.lookup k = if e.pre.limiter.owns d k then
      some ((Bucket.orFull (e.pre.limiter.buckets.lookup k) B e.post.elapsed).take e.post.elapsed)
      else none := by
  have hdoes := does h
  rw [hadm] at hdoes
  rw [elapsed_post h, now]
  generalize e.label = c, e.post.limiter = l' at hdoes hd
  cases hdoes with
  | grant =>
    cases hd
    exact Limiter.lookup_takeKeys_of_mem hk

/-- An admitted request that does not demand `k` leaves its bucket alone. -/
theorem lookup_of_notMem (h : e.pre.step e.label = some e.post)
    (hd : e.label.demand? = some d) (hk : k ∉ d.keys.map Prod.fst) :
    e.post.limiter.buckets.lookup k = e.pre.limiter.buckets.lookup k := by
  have hdoes := does h
  generalize e.label = c, e.post.limiter = l', e.admitted = b at hdoes hd
  cases hdoes with
  | sweep => cases hd
  | reject => rfl
  | grant =>
    cases hd
    exact Limiter.lookup_takeKeys_of_notMem hk

/-- The overflow bucket of an admitted request after the step. -/
theorem overflow_of_admitted (h : e.pre.step e.label = some e.post)
    (hd : e.label.demand? = some d) (hadm : e.admitted = true) :
    e.post.limiter.overflow.lookup d.overflow.1 = if e.pre.limiter.useOverflow d then
      some ((Bucket.orFull (e.pre.limiter.overflow.lookup d.overflow.1) d.overflow.2
        e.post.elapsed).take e.post.elapsed)
      else e.pre.limiter.overflow.lookup d.overflow.1 := by
  have hdoes := does h
  rw [hadm] at hdoes
  rw [elapsed_post h, now]
  generalize e.label = c, e.post.limiter = l' at hdoes hd
  cases hdoes with
  | grant =>
    cases hd
    cases hu : e.pre.limiter.useOverflow d with
    | true => exact Limiter.lookup_takeOverflow_self hu
    | false => exact congrArg _ (Limiter.takeOverflow_of_false hu)

theorem overflow_of_ne (h : e.pre.step e.label = some e.post)
    (hd : e.label.demand? = some d) (ho : o ≠ d.overflow.1) :
    e.post.limiter.overflow.lookup o = e.pre.limiter.overflow.lookup o := by
  have hdoes := does h
  generalize e.label = c, e.post.limiter = l', e.admitted = b at hdoes hd
  cases hdoes with
  | sweep => cases hd
  | reject => rfl
  | grant =>
    cases hd
    exact Limiter.lookup_takeOverflow_ne ho

/-- A token taken moves the arrival time, so the bucket is not the one before. -/
theorem takes_self_eq_false {b : Option Bucket} : e.takes b b B = false := by
  refine decide_eq_false fun hb => ?_
  have htat := congrArg (Option.map Bucket.tat) hb
  cases b with
  | none => cases htat
  | some b =>
    have hpos := b.budget.interval_pos
    have : b.tat = max b.tat e.post.elapsed + b.budget.interval := Option.some.inj htat
    have := le_max_left b.tat e.post.elapsed
    omega

theorem charges_of_admitted (h : e.pre.step e.label = some e.post)
    (hd : e.label.demand? = some d) (hadm : e.admitted = true) (hk : (k, B) ∈ d.keys) :
    e.charges k = e.pre.limiter.owns d k := by
  simp only [charges, hadm, hd, Bool.true_and, Option.any_some]
  cases hown : e.pre.limiter.owns d k with
  | true =>
    refine List.any_eq_true.mpr ⟨(k, B), hk, ?_⟩
    simp [takes, lookup_of_admitted h hd hadm hk, hown]
  | false =>
    refine List.any_eq_false.mpr fun p _ => ?_
    simp [takes, lookup_of_admitted h hd hadm hk, hown]

theorem charges_eq_false (h : ∀ d, e.label.demand? = some d → e.admitted = true →
    k ∉ d.keys.map Prod.fst) : e.charges k = false := by
  unfold charges
  cases hadm : e.admitted with
  | false => rfl
  | true =>
    cases hd : e.label.demand? with
    | none => rfl
    | some d =>
      refine List.any_eq_false.mpr fun p hp => ?_
      have hne : p.1 ≠ k := fun hpk => h d hd hadm (hpk ▸ List.mem_map_of_mem hp)
      simp [hne]

theorem chargesOverflow_of_admitted (h : e.pre.step e.label = some e.post)
    (hd : e.label.demand? = some d) (hadm : e.admitted = true) :
    e.chargesOverflow d.overflow.1 = e.pre.limiter.useOverflow d := by
  simp only [chargesOverflow, hadm, hd, Bool.true_and, Option.any_some, decide_true,
    overflow_of_admitted h hd hadm]
  cases hu : e.pre.limiter.useOverflow d with
  | true => simp [takes]
  | false => exact takes_self_eq_false

theorem chargesOverflow_eq_false (h : ∀ d, e.label.demand? = some d → e.admitted = true →
    o ≠ d.overflow.1) : e.chargesOverflow o = false := by
  unfold chargesOverflow
  cases hadm : e.admitted with
  | false => rfl
  | true =>
    cases hd : e.label.demand? with
    | none => rfl
    | some d => simp [(h d hd hadm).symm]

/-! ## Each bucket is a token bucket -/

/-- A step that is not a request is a sweep. -/
theorem limiter_of_sweep (h : e.pre.step e.label = some e.post) (hd : e.label.demand? = none) :
    e.admitted = false ∧ e.post.limiter = e.pre.limiter.sweep e.now := by
  have hdoes := does h
  unfold now
  generalize e.label = c, e.post.limiter = l', e.admitted = b at hdoes hd
  cases hdoes with
  | sweep => exact ⟨rfl, rfl⟩
  | reject | grant => cases hd

theorem limiter_admitted (h : e.pre.step e.label = some e.post)
    (hd : e.label.demand? = some d) (hadm : e.admitted = true) :
    ∃ extra, e.pre.limiter.admitted d e.post.elapsed extra = true := by
  have hdoes := does h
  rw [hadm] at hdoes
  rw [elapsed_post h, now]
  generalize e.label = c, e.post.limiter = l' at hdoes hd
  cases hdoes with
  | grant hadm =>
    cases hd
    exact ⟨_, hadm⟩

/-- A step moves the bucket of a key by the budget the requests demand it with. -/
theorem moves (h : e.pre.step e.label = some e.post)
    (hB : ∀ d, e.label.demand? = some d → ∀ b, (k, b) ∈ d.keys → b = B) :
    Bucket.Moves B (e.pre.limiter.buckets.lookup k) e.post.elapsed (e.charges k)
      (e.post.limiter.buckets.lookup k) := by
  cases hd : e.label.demand? with
  | none =>
    obtain ⟨hadm, hpost⟩ := limiter_of_sweep h hd
    rw [charges_eq_false (by simp [hd]), hpost, Limiter.lookup_sweep, elapsed_post h]
    exact .filter
  | some d =>
    by_cases hk : ∃ b, (k, b) ∈ d.keys
    · obtain ⟨b, hk⟩ := hk
      obtain rfl := hB d hd b hk
      cases hadm : e.admitted with
      | false =>
        rw [charges_eq_false (by simp [hadm]), limiter_of_rejected h hd hadm]
        exact .idle
      | true =>
        rw [charges_of_admitted h hd hadm hk, lookup_of_admitted h hd hadm hk]
        cases hown : e.pre.limiter.owns d k with
        | true =>
          obtain ⟨extra, hadm⟩ := limiter_admitted h hd hadm
          exact .charged (Limiter.admits_of_admitted hadm hk hown)
        | false =>
          have hnone : e.pre.limiter.buckets.lookup k = none := by
            simpa using (Bool.or_eq_false_iff.mp hown).1
          rw [hnone]
          exact .idle
    · have hk : k ∉ d.keys.map Prod.fst := by simpa using hk
      rw [charges_eq_false (by simpa [hd] using fun _ => by simpa using hk),
        lookup_of_notMem h hd hk]
      exact .idle

/-- A step moves an overflow bucket by the budget the requests name for it. -/
theorem moves_overflow (h : e.pre.step e.label = some e.post)
    (hB : ∀ d, e.label.demand? = some d → d.overflow.1 = o → d.overflow.2 = B) :
    Bucket.Moves B (e.pre.limiter.overflow.lookup o) e.post.elapsed (e.chargesOverflow o)
      (e.post.limiter.overflow.lookup o) := by
  cases hd : e.label.demand? with
  | none =>
    obtain ⟨hadm, hpost⟩ := limiter_of_sweep h hd
    rw [chargesOverflow_eq_false (by simp [hd]), hpost, Limiter.overflow_lookup_sweep,
      elapsed_post h]
    exact .filter
  | some d =>
    by_cases ho : d.overflow.1 = o
    · obtain rfl := hB d hd ho
      subst ho
      cases hadm : e.admitted with
      | false =>
        rw [chargesOverflow_eq_false (by simp [hadm]), limiter_of_rejected h hd hadm]
        exact .idle
      | true =>
        rw [chargesOverflow_of_admitted h hd hadm, overflow_of_admitted h hd hadm]
        cases hu : e.pre.limiter.useOverflow d with
        | true =>
          obtain ⟨extra, hadm⟩ := limiter_admitted h hd hadm
          exact .charged (Limiter.overflow_admits_of_admitted hadm hu)
        | false => exact .idle
    · rw [chargesOverflow_eq_false (by simpa [hd] using fun _ => Ne.symm ho),
        overflow_of_ne h hd (Ne.symm ho)]
      exact .idle

end Event

end Kohaku.Limits
