import Kohaku.Limits.MailBudget
import Kohaku.TokenBucket.Tokens

/-!
# The limiter is a token bucket per key

`Reference` is the limiter as it is meant: one permanent bucket per key that holds a rational number
of tokens, and the instance bucket. It never sweeps. While no request takes the overflow path, the
limiter gives the same answers, whenever it is swept.
-/

namespace Kohaku.Limits

open TokenBucket

/-- The tokens of every bucket at the time of the last request. -/
structure Reference where
  tokens : Key → ℚ
  instanceTokens : ℚ
  clock : Instant

namespace Reference

section
variable (B : Key → Budget) (S : Budget)

/-- Every bucket holds its capacity. -/
def new (start : Instant) : Reference := ⟨fun k => (B k).capacity, S.capacity, start⟩

/-- Every bucket regains one token per interval, up to its capacity. -/
def refill (r : Reference) (now : Instant) : Reference where
  tokens k := (B k).refill (r.tokens k) (now - r.clock)
  instanceTokens := S.refill r.instanceTokens (now - r.clock)
  clock := now

/-- Every demanded bucket, and the instance bucket if it is asked, holds a token. -/
def admits (r : Reference) (a : Ask) : Bool :=
  (a.demand.keys.all fun (key, _) => 1 ≤ r.tokens key) && (!a.shared || 1 ≤ r.instanceTokens)

/-- One token is taken from each of them. -/
def take (r : Reference) (a : Ask) : Reference where
  tokens k := if k ∈ a.demand.keys.map Prod.fst then r.tokens k - 1 else r.tokens k
  instanceTokens := if a.shared then r.instanceTokens - 1 else r.instanceTokens
  clock := r.clock

/-- What is asked for after the refill: one token from each bucket if each has one. -/
def request (r : Reference) (a : Ask) : Bool × Reference :=
  let r := r.refill B S a.now
  if r.admits a then (true, r.take a) else (false, r)

/-- The answers to a list of requests. -/
def answers (r : Reference) (as : List Ask) : List Bool := Mealy.outputs (request B S) r as

end

end Reference

/-! ## The simulation -/

/-- The requests of the history demand each key with its budget. -/
def Asks (B : Key → Budget) (h : List Metered.Event) : Prop :=
  ∀ a ∈ Metered.asks h, ∀ p ∈ a.demand.keys, p.2 = B p.1

/-- No request finds the map too full for the buckets it misses. -/
def NoOverflow (h : List Metered.Event) : Prop :=
  ∀ e ∈ h, ∀ a ∈ Metered.Event.ask? e, e.pre.limiter.useOverflow a.demand = false

instance (h : List Metered.Event) : Decidable (NoOverflow h) :=
  inferInstanceAs (Decidable (∀ e ∈ h, ∀ a ∈ Metered.Event.ask? e,
    e.pre.limiter.useOverflow a.demand = false))

/-- The arrival times kept since the last request stand for the reference's tokens. -/
structure Simulates (B : Key → Budget) (S : Budget) (s : Metered) (r : Reference) : Prop where
  start_le : s.limiter.start ≤ r.clock
  clock_le : r.clock ≤ s.clock
  of_key : ∀ k, Bucket.Of (B k) (s.limiter.buckets.lookup k)
  of_instance : Bucket.Of S (some s.mail.instanceBucket)
  key : ∀ k, Bucket.level (B k) (s.limiter.buckets.lookup k) (s.limiter.elapsed s.clock) =
    (B k).refill (r.tokens k) (s.clock - r.clock)
  shared : Bucket.level S (some s.mail.instanceBucket) (s.limiter.elapsed s.clock) =
    S.refill r.instanceTokens (s.clock - r.clock)

variable {B : Key → Budget} {S : Budget} {s s' : Metered} {r : Reference} {a : Ask} {k : Key}
  {now start : Instant} {l : Limiter} {d : Demand} {extra : Duration → Bool}

/-- At the time of a request the buckets hold the reference's tokens. -/
theorem Simulates.of_levels (hstart : s.limiter.start ≤ r.clock) (hclock : s.clock = r.clock)
    (hkeys : ∀ k, Bucket.Of (B k) (s.limiter.buckets.lookup k))
    (hinstance : Bucket.Of S (some s.mail.instanceBucket))
    (hkey : ∀ k, Bucket.level (B k) (s.limiter.buckets.lookup k) (s.limiter.elapsed s.clock) =
      r.tokens k)
    (hshared : Bucket.level S (some s.mail.instanceBucket) (s.limiter.elapsed s.clock) =
      r.instanceTokens) : Simulates B S s r where
  start_le := hstart
  clock_le := hclock.ge
  of_key := hkeys
  of_instance := hinstance
  key k := by
    rw [hclock, Nat.sub_self, Budget.refill_zero, ← hclock, hkey k]
    exact hkey k ▸ Bucket.level_le
  shared := by
    rw [hclock, Nat.sub_self, Budget.refill_zero, ← hclock, hshared]
    exact hshared ▸ Bucket.level_le

theorem Simulates.new : Simulates B S (.new start (.ofBudget S)) (.new B S start) := by
  apply Simulates.of_levels le_rfl rfl
  · exact fun _ => nofun
  · intro b hb
    cases hb
    rfl
  · exact fun _ => Bucket.level_none
  · exact Bucket.level_of_le (Nat.zero_le _)

/-- Time passes alike for a bucket and its tokens. -/
theorem level_wait_refill {A : Budget} {o : Option Bucket} {tokens : ℚ} {start t t' now : Nat}
    (h : Bucket.level A o (t' - start) = A.refill tokens (t' - t)) (hst : start ≤ t)
    (ht : t ≤ t') (hnow : t' ≤ now) :
    Bucket.level A o (now - start) = A.refill tokens (now - t) := by
  rw [Bucket.level_wait (Nat.sub_le_sub_right hnow start), h, Budget.refill_refill]
  congr 1
  omega

/-- Time passes on both sides. -/
theorem Simulates.wait (R : Simulates B S s r) (hle : s.clock ≤ now) :
    (∀ k, Bucket.level (B k) (s.limiter.buckets.lookup k) (s.limiter.elapsed now) =
      (r.refill B S now).tokens k) ∧
    Bucket.level S (some s.mail.instanceBucket) (s.limiter.elapsed now) =
      (r.refill B S now).instanceTokens :=
  ⟨fun k => level_wait_refill (R.key k) R.start_le R.clock_le hle,
    level_wait_refill R.shared R.start_le R.clock_le hle⟩

/-- A sweep is not seen by the reference. -/
theorem Simulates.sweep (R : Simulates B S s r) (h : s.step (.sweep now) = some s') :
    Simulates B S s' r := by
  obtain ⟨hle, rfl⟩ := Metered.step_sweep h
  obtain ⟨hkey, hshared⟩ := R.wait hle
  refine ⟨R.start_le, R.clock_le.trans hle, ?_, R.of_instance, ?_, hshared⟩
  · intro k b hb
    rw [Limiter.lookup_sweep] at hb
    exact R.of_key k b (Option.filter_eq_some_iff.mp hb).1
  · intro k
    rw [Limiter.lookup_sweep]
    exact Bucket.level_filter.trans (hkey k)

/-- Without overflow every demanded bucket is asked, a missing one as full. -/
theorem admitted_of_no_overflow (hu : l.useOverflow d = false) {now : Duration} :
    l.admitted d now extra = ((d.keys.all fun (key, budget) =>
      (Bucket.orFull (l.buckets.lookup key) budget now).admits now) && extra now) := by
  simp only [Limiter.admitted, hu, Bool.not_false, Bool.true_or, Bool.and_true]
  congr 2
  funext p
  cases l.buckets.lookup p.1 <;> rfl

/-- Both sides give the same answer. -/
theorem Simulates.admitted_eq (R : Simulates B S s r) (hle : s.clock ≤ a.now)
    (hB : ∀ p ∈ a.demand.keys, p.2 = B p.1) (hu : s.limiter.useOverflow a.demand = false) :
    s.admitted a = (r.refill B S a.now).admits a := by
  obtain ⟨hkey, hshared⟩ := R.wait hle
  unfold Metered.admitted Metered.extra Reference.admits
  rw [admitted_of_no_overflow hu]
  congr 1
  · rw [Bool.eq_iff_iff, List.all_eq_true, List.all_eq_true]
    refine forall₂_congr fun p hp => ?_
    change (Bucket.orFull (s.limiter.buckets.lookup p.1) p.2 _).admits _ = true ↔
      decide (1 ≤ (r.refill B S a.now).tokens p.1) = true
    rw [hB p hp, Bucket.admits_iff_level (R.of_key p.1), hkey, decide_eq_true_eq]
  · congr 1
    rw [Bool.eq_iff_iff, decide_eq_true_eq, ← hshared,
      ← Bucket.admits_iff_level R.of_instance, Bucket.orFull_some]

theorem owns_of_no_overflow (hu : l.useOverflow d = false) : l.owns d k = true := by
  simp [Limiter.owns, hu]

/-- What a request that is admitted without overflow leaves of a bucket. -/
theorem lookup_takeKeys_of_no_overflow (hu : l.useOverflow d = false) (ho : ∀ k, Bucket.Of (B k)
    (l.buckets.lookup k)) (hB : ∀ p ∈ d.keys, p.2 = B p.1) (now : Duration) (k : Key) :
    Bucket.Of (B k) ((l.takeKeys d now).lookup k) ∧
    Bucket.level (B k) ((l.takeKeys d now).lookup k) now =
      if k ∈ d.keys.map Prod.fst then Bucket.level (B k) (l.buckets.lookup k) now - 1
      else Bucket.level (B k) (l.buckets.lookup k) now := by
  by_cases hk : k ∈ d.keys.map Prod.fst
  · obtain ⟨p, hp, rfl⟩ := List.mem_map.mp hk
    rw [Limiter.lookup_takeKeys_of_mem (B := B p.1) (hB p hp ▸ hp), owns_of_no_overflow hu,
      if_pos hk, if_pos rfl, Bucket.level_take (ho p.1)]
    refine ⟨?_, rfl⟩
    intro b hb
    cases hb
    rw [Bucket.budget_take, Bucket.budget_orFull (ho p.1)]
  · rw [Limiter.lookup_takeKeys_of_notMem hk, if_neg hk]
    exact ⟨ho k, rfl⟩

/-- A request is answered alike and takes the same tokens. -/
theorem Simulates.ask (R : Simulates B S s r) (h : s.step (.ask a) = some s')
    (hB : ∀ p ∈ a.demand.keys, p.2 = B p.1) (hu : s.limiter.useOverflow a.demand = false) :
    (s.request a).1 = (r.request B S a).1 ∧ Simulates B S s' (r.request B S a).2 := by
  obtain ⟨hle, rfl⟩ := Metered.step_ask h
  obtain ⟨hkey, hshared⟩ := R.wait hle
  have hadm := R.admitted_eq hle hB hu
  have hstart : s.limiter.start ≤ a.now := R.start_le.trans (R.clock_le.trans hle)
  unfold Reference.request
  cases hans : s.admitted a with
  | false =>
    rw [Metered.request_of_false hans]
    rw [hans] at hadm
    simp only [← hadm, Bool.false_eq_true, if_false, true_and]
    exact .of_levels hstart rfl R.of_key R.of_instance hkey hshared
  | true =>
    rw [Metered.request_of_true hans]
    rw [hans] at hadm
    simp only [← hadm, if_true, true_and]
    have htake := lookup_takeKeys_of_no_overflow hu R.of_key hB (s.limiter.elapsed a.now)
    apply Simulates.of_levels hstart rfl
    · exact fun k => (htake k).1
    · split
      · intro b hb
        cases hb
        exact R.of_instance s.mail.instanceBucket rfl
      · exact R.of_instance
    · intro k
      refine (htake k).2.trans ?_
      rw [hkey k]
      rfl
    · change _ = if a.shared then (r.refill B S a.now).instanceTokens - 1
        else (r.refill B S a.now).instanceTokens
      rw [← hshared]
      split
      · exact Bucket.level_take (o := some s.mail.instanceBucket) R.of_instance
      · rfl

/-! ## Whole runs -/

variable {h : List Metered.Event} {t : Metered}

theorem Metered.Event.label_of_ask? {e : Event} (h : e.ask? = some a) : e.label = .ask a := by
  unfold Event.ask? at h
  cases hl : e.label with
  | ask b =>
    rw [hl] at h
    cases h
    rfl
  | sweep now =>
    rw [hl] at h
    cases h

theorem Metered.Event.label_of_none {e : Event} (h : e.ask? = none) :
    ∃ now, e.label = .sweep now := by
  unfold Event.ask? at h
  cases hl : e.label with
  | ask b =>
    rw [hl] at h
    cases h
  | sweep now => exact ⟨now, rfl⟩

/-- The limiter answers as the reference. -/
theorem answers_eq_reference (H : Lts.Exec Metered.step (.new start (.ofBudget S)) h t)
    (hB : Asks B h) (hover : NoOverflow h) :
    Metered.answers h = (Reference.new B S start).answers B S (Metered.asks h) := by
  refine (H.mealy Metered.Event.ask? Metered.Event.answer (Simulates B S) Simulates.new ?_ ?_).1
  · intro e r he hs hnone R
    obtain ⟨now, hl⟩ := Metered.Event.label_of_none hnone
    rw [hl] at hs
    exact R.sweep hs
  · intro e r a he hs ha R
    have hl := Metered.Event.label_of_ask? ha
    have hanswer : Metered.Event.answer e = (e.pre.request a).1 := by
      rw [Metered.Event.answer, hl]
      rfl
    rw [hl] at hs
    rw [hanswer]
    exact R.ask hs (hB a (List.mem_filterMap.mpr ⟨e, he, ha⟩)) (hover e he a ha)

theorem limiter_is_token_bucket (H : Lts.Exec Metered.step (.new start (.ofBudget S)) h t)
    (hB : Asks B h) (hover : NoOverflow h) :
    Metered.answers h = (Reference.new B S start).answers B S (Metered.asks h) ∧
    ∀ h' t', Lts.Exec Metered.step (.new start (.ofBudget S)) h' t' → NoOverflow h' →
      Metered.asks h' = Metered.asks h → Metered.answers h' = Metered.answers h := by
  have hans := answers_eq_reference H hB hover
  refine ⟨hans, fun h' t' H' hover' hasks => ?_⟩
  have hB' : Asks B h' := fun a ha => hB a (hasks ▸ ha)
  rw [hans, answers_eq_reference H' hB' hover', hasks]

/-! ## Two mails and a sweep between them -/

namespace TwoMails

theorem one_per_hour : 0 < 1 ∧ 1 ≤ hour := by decide

/-- One public mail an hour. -/
def mail : MailBudget := .new 1 one_per_hour

/-- A mail at the start. -/
def first : Ask := ⟨.mailSource (.v4 0xcb007105) perSource, 7, true⟩

/-- One from another network within the hour. -/
def second : Ask := ⟨.mailSource (.v4 0xcb007106) perSource, fromSecs 3000, true⟩

/-- One after the hour. -/
def third : Ask := ⟨.mailSource (.v4 0xcb007106) perSource, fromSecs 3601, true⟩

/-- The three with sweeps in between. -/
def swept : List Metered.Event := Lts.history Metered.step (.new 5 mail)
  [.ask first, .sweep (fromSecs 600), .ask second, .sweep (fromSecs 3600), .ask third]

/-- The three alone. -/
def unswept : List Metered.Event := Lts.history Metered.step (.new 5 mail)
  [.ask first, .ask second, .ask third]

theorem run_swept : Lts.Exec Metered.step (.new 5 mail) swept (Lts.last (.new 5 mail) swept) :=
  .of_history (by decide)

theorem run_unswept :
    Lts.Exec Metered.step (.new 5 mail) unswept (Lts.last (.new 5 mail) unswept) :=
  .of_history (by decide)

end TwoMails

open TwoMails in
theorem limiter_is_token_bucket_two_mails :
    Metered.answers swept = [true, false, true] ∧
    Metered.answers swept = (Reference.new Key.budget mail.instanceBucket.budget 5).answers
      Key.budget mail.instanceBucket.budget [first, second, third] ∧
    Metered.answers unswept = Metered.answers swept := by
  have hasks : Metered.asks swept = [first, second, third] := by decide
  have hsame : Metered.asks unswept = [first, second, third] := by decide
  have hB : Asks Key.budget swept := by
    unfold Asks
    rw [hasks]
    decide
  have h := limiter_is_token_bucket run_swept hB (by decide)
  rw [hasks] at h
  refine ⟨by decide, h.1, ?_⟩
  exact h.2 _ _ run_unswept (by decide) hsame

end Kohaku.Limits
