import Kohaku.Limits.Calls

/-!
# The rate limits hold over every run

In a run of limiter calls from a new limiter, every window has at most `capacity + w / interval`
requests charged to a bucket, whatever is swept and created again in between; every admitted request
is charged for each of its keys, and the map never outgrows its bound.
-/

namespace Kohaku.Limits

open TokenBucket

/-- Every request for the key demands it with the budget `B`. -/
def Budgeted (h : List Event) (k : Key) (B : Budget) : Prop :=
  ∀ e ∈ h, ∀ d, e.label.demand? = some d → ∀ b, (k, b) ∈ d.keys → b = B

/-- Every request that names the overflow bucket does so with the budget `B`. -/
def OverflowBudgeted (h : List Event) (o : Overflow) (B : Budget) : Prop :=
  ∀ e ∈ h, ∀ d, e.label.demand? = some d → d.overflow.1 = o → d.overflow.2 = B

/-- The request is of the class and from an address of the /48. -/
def Demand.ofSlash48 (d : Demand) (c : RateClass) (slash48 : Prefix) : Bool :=
  match d with
  | ofClass c' address => c' = c && (prefixes address).2 = some slash48
  | _ => false

namespace Event

/-- The call is between `t` and `t + w`. -/
def within (e : Event) (t : Instant) (w : Duration) : Bool := t ≤ e.now && e.now ≤ t + w

/-- The call admits a request of the class from an address of the /48. -/
def admitsSlash48 (e : Event) (c : RateClass) (slash48 : Prefix) : Bool :=
  e.admitted && e.label.demand?.any fun d => d.ofSlash48 c slash48

end Event

variable {start : Instant} {h : List Event} {s t : Clocked} {e : Event} {k : Key} {o : Overflow}
  {B : Budget} {d : Demand} {c : RateClass} {slash48 : Prefix}

/-! ## Facts of runs -/

theorem start_eq (H : Lts.Exec Clocked.step s h t) : t.limiter.start = s.limiter.start := by
  exact H.eq_of_forall (fun s => s.limiter.start) fun e _ hs => Clocked.start_of_step hs

theorem elapsed_post_of_mem (H : Lts.Exec Clocked.step s h t) (he : e ∈ h) :
    e.post.elapsed = e.now - s.limiter.start := by
  obtain ⟨_, _, -, H₁, hs, -⟩ := H.of_mem he
  rw [Event.elapsed_post hs, Limiter.elapsed, start_eq H₁]

/-- A window of instants is a window of times since the start. -/
theorem countP_within_le (H : Lts.Exec Clocked.step s h t) (p : Event → Bool) (t₀ w : Nat) :
    h.countP (fun e => p e && e.within t₀ w) ≤ h.countP (fun e => p e &&
      t₀ - s.limiter.start ≤ e.post.elapsed && e.post.elapsed ≤ t₀ - s.limiter.start + w) := by
  refine List.countP_mono_left fun e he hp => ?_
  simp only [Event.within, Bool.and_eq_true, decide_eq_true_eq] at hp ⊢
  rw [elapsed_post_of_mem H he]
  obtain ⟨hp, hle, hlt⟩ := hp
  refine ⟨⟨hp, Nat.sub_le_sub_right hle _⟩, ?_⟩
  calc e.now - s.limiter.start
    _ ≤ t₀ + w - s.limiter.start := Nat.sub_le_sub_right hlt _
    _ ≤ t₀ - s.limiter.start + w := by omega

/-- The window bound for any bucket of the limiter that every call moves. -/
theorem charged_within_le (bucket : Limiter → Option Bucket) (charged : Event → Bool)
    (H : Lts.Exec Clocked.step s h t) (h0 : Bucket.Of B (bucket s.limiter))
    (hmoves : ∀ e ∈ h, Clocked.step e.pre e.label = some e.post →
      Bucket.Moves B (bucket e.pre.limiter) e.post.elapsed (charged e) (bucket e.post.limiter))
    (t₀ w : Nat) :
    h.countP (fun e => charged e && e.within t₀ w) ≤ B.capacity + w / B.interval := by
  refine (countP_within_le H charged t₀ w).trans ?_
  apply Bucket.charged_le Clocked.elapsed (fun s => bucket s.limiter) charged H h0
  intro e he hs
  exact ⟨Clocked.elapsed_le hs, hmoves e he hs⟩

theorem length_buckets_le (H : Lts.Exec Clocked.step s h t)
    (h0 : s.limiter.buckets.keys.length ≤ maxBuckets) :
    t.limiter.buckets.keys.length ≤ maxBuckets := by
  apply H.invariant (fun s => s.limiter.buckets.keys.length ≤ maxBuckets) h0
  intro s c s' hle hs
  have hdoes := Event.does (e := ⟨s, c, s'⟩) hs
  generalize s'.limiter = l', Event.admitted ⟨s, c, s'⟩ = b at hdoes
  cases hdoes with
  | sweep => exact (Limiter.length_sweep_le _).trans hle
  | reject => exact hle
  | grant => exact Limiter.length_takeKeys_le hle

/-- An admitted request is charged for each key it demands. -/
theorem Event.charges_or (hs : e.pre.step e.label = some e.post) (hd : e.label.demand? = some d)
    (hadm : e.admitted = true) (hk : (k, B) ∈ d.keys) :
    e.charges k = true ∨ e.chargesOverflow d.overflow.1 = true := by
  rw [charges_of_admitted hs hd hadm hk, chargesOverflow_of_admitted hs hd hadm, Limiter.owns]
  cases e.pre.limiter.useOverflow d <;> simp

/-! ## A whole /48 -/

theorem Demand.slash48_mem_keys (h : d.ofSlash48 c slash48 = true) :
    (Key.ofClass c slash48, c.aggregate) ∈ d.keys ∧ d.overflow.1 = .ofClass c := by
  cases d with
  | ofClass c' address =>
    obtain ⟨rfl, hp⟩ : c' = c ∧ (prefixes address).2 = some slash48 := by
      simpa [ofSlash48] using h
    simp [keys, overflow, hp]
  | mailAddress | mailSource => cases h

/-- The aggregate key of a /48 has one budget. -/
theorem budgeted_slash48 (hp : (prefixes address).2 = some slash48) :
    Budgeted h (.ofClass c slash48) c.aggregate := by
  rintro e - d - b hb
  cases address with
  | v4 => cases hp
  | v6 bits =>
    cases hp
    cases d with
    | ofClass c' address => cases address <;> simp [Demand.keys, prefixes] at hb; simp [hb]
    | mailAddress | mailSource => simp [Demand.keys] at hb

theorem overflowBudgeted_class : OverflowBudgeted h (.ofClass c) c.budget := by
  rintro e - d - ho
  cases d with
  | ofClass => cases ho; rfl
  | mailAddress | mailSource => cases ho

theorem countP_le_add {α : Type} {p q r : α → Bool} {l : List α}
    (h : ∀ a ∈ l, p a = true → q a = true ∨ r a = true) :
    l.countP p ≤ l.countP q + l.countP r := by
  induction l with
  | nil => exact Nat.zero_le _
  | cons a l ih =>
    have ih := ih fun a ha => h a (List.mem_cons_of_mem _ ha)
    have ha := h a List.mem_cons_self
    simp only [List.countP_cons]
    cases hp : p a <;> cases hq : q a <;> cases hr : r a <;> simp [hp, hq, hr] at ha ⊢ <;> omega

/-! ## The limits -/

theorem rate_limits_hold (H : Lts.Exec Clocked.step (.new start) h t) :
    (∀ k B, Budgeted h k B → ∀ t₀ w,
      h.countP (fun e => e.charges k && e.within t₀ w) ≤ B.capacity + w / B.interval) ∧
    (∀ o B, OverflowBudgeted h o B → ∀ t₀ w,
      h.countP (fun e => e.chargesOverflow o && e.within t₀ w) ≤ B.capacity + w / B.interval) ∧
    (∀ e ∈ h, ∀ d, e.label.demand? = some d → e.admitted = true → ∀ k B, (k, B) ∈ d.keys →
      e.charges k = true ∨ e.chargesOverflow d.overflow.1 = true) ∧
    (∀ e ∈ h, ∀ d, e.label.demand? = some d → e.admitted = false →
      e.post.limiter = e.pre.limiter) ∧
    t.limiter.buckets.keys.length ≤ maxBuckets ∧
    ∀ c address slash48, (prefixes address).2 = some slash48 → ∀ t₀ w,
      h.countP (fun e => e.admitsSlash48 c slash48 && e.within t₀ w) ≤
        (c.aggregate.capacity + w / c.aggregate.interval) +
          (c.budget.capacity + w / c.budget.interval) := by
  have hown : ∀ k B, Budgeted h k B → ∀ t₀ w,
      h.countP (fun e => e.charges k && e.within t₀ w) ≤ B.capacity + w / B.interval := by
    intro k B hB
    apply charged_within_le (fun l => l.buckets.lookup k) (fun e => e.charges k) H nofun
    intro e he hs
    exact Event.moves hs (hB e he)
  have hover : ∀ o B, OverflowBudgeted h o B → ∀ t₀ w,
      h.countP (fun e => e.chargesOverflow o && e.within t₀ w) ≤ B.capacity + w / B.interval := by
    intro o B hB
    apply charged_within_le (fun l => l.overflow.lookup o) (fun e => e.chargesOverflow o) H nofun
    intro e he hs
    exact Event.moves_overflow hs (hB e he)
  refine ⟨hown, hover, ?_, ?_, length_buckets_le H (Nat.zero_le _), ?_⟩
  · intro e he d hd hadm k B hk
    exact Event.charges_or (H.step_of_mem he) hd hadm hk
  · intro e he d hd hadm
    exact Event.limiter_of_rejected (H.step_of_mem he) hd hadm
  · intro c address slash48 hp t₀ w
    refine (countP_le_add fun e he hin => ?_).trans
      (Nat.add_le_add (hown _ _ (budgeted_slash48 hp) t₀ w) (hover _ _ overflowBudgeted_class t₀ w))
    simp only [Event.admitsSlash48, Bool.and_eq_true, Option.any_eq_true] at hin
    obtain ⟨⟨hadm, d, hd, hof⟩, hin⟩ := hin
    obtain ⟨hk, ho⟩ := Demand.slash48_mem_keys hof
    have hcharged := Event.charges_or (H.step_of_mem he) hd hadm hk
    rw [ho] at hcharged
    simpa [hin] using hcharged

/-! ## Logins from two /64s of one /48 -/

namespace TwoSlash64s

/-- An address of a network. -/
def first : IpAddr := .v6 0x20010db8000100010000000000000001

/-- An address of its neighbour. -/
def second : IpAddr := .v6 0x20010db8000100020000000000000001

/-- Logins from both, a sweep and a login that is refused. -/
def calls : List Call :=
  [.request (.ofClass .login first) 5 true, .request (.ofClass .login second) 6 true,
    .sweep (fromSecs 60), .request (.ofClass .login first) (fromSecs 60) false]

/-- The run of these calls. -/
def history : List Event := Lts.history Clocked.step (.new 3) calls

theorem run : Lts.Exec Clocked.step (.new 3) history (Lts.last (.new 3) history) :=
  .of_history (by decide)

end TwoSlash64s

open TwoSlash64s in
theorem rate_limits_hold_two_slash64s :
    history.map Event.admitted = [true, true, false, false] ∧
    (prefixes first).2 = some (.v6Slash48 0x20010db80001) ∧
    (prefixes second).2 = some (.v6Slash48 0x20010db80001) ∧
    ∀ t₀ w, history.countP (fun e =>
        e.admitsSlash48 .login (.v6Slash48 0x20010db80001) && e.within t₀ w) ≤
      (80 + w / 11250000000) + (10 + w / 90000000000) := by
  refine ⟨by decide, by decide, by decide, fun t₀ w => ?_⟩
  exact (rate_limits_hold run).2.2.2.2.2 .login first _ (by decide) t₀ w

end Kohaku.Limits
