import Kohaku.Lts.Exec

/-!
# Token buckets kept as arrival times

A bucket of `capacity` tokens that regains one every `interval` is kept as its theoretical arrival
time (GCRA): it is full once that time is not after now, and admits a request while it lies at most
`capacity - 1` intervals ahead. A bucket that is full may be dropped; a bucket that is absent counts
as full. `Trace` is the life of one bucket in order of time, `Trace.window` the bound on what is
charged to it in a window, and `charged_le` that bound for a bucket held in the state of a
transition system.
-/

namespace TokenBucket

/-- `capacity` tokens, one regained every `interval`. -/
structure Budget where
  capacity : Nat
  interval : Nat
  capacity_pos : 0 < capacity
  interval_pos : 0 < interval
  deriving DecidableEq

namespace Budget

/-- `capacity` tokens every `window`. -/
def per (capacity window : Nat) (h : 0 < capacity ∧ capacity ≤ window) : Budget where
  capacity
  interval := window / capacity
  capacity_pos := h.1
  interval_pos := Nat.div_pos h.2 h.1

/-- `factor` times the tokens, regained as much faster. -/
def times (B : Budget) (factor : Nat) (h : 0 < factor ∧ factor ≤ B.interval) : Budget where
  capacity := B.capacity * factor
  interval := B.interval / factor
  capacity_pos := Nat.mul_pos B.capacity_pos h.1
  interval_pos := Nat.div_pos h.2 h.1

end Budget

/-- A bucket: its budget and theoretical arrival time. -/
structure Bucket where
  budget : Budget
  tat : Nat
  deriving DecidableEq

namespace Bucket

/-- A bucket from which nothing has been taken. -/
def full (budget : Budget) (now : Nat) : Bucket := ⟨budget, now⟩

/-- The bucket has a token. -/
def admits (b : Bucket) (now : Nat) : Bool :=
  let tolerance := b.budget.interval * (b.budget.capacity - 1)
  b.tat ≤ now + tolerance

/-- A token is taken. -/
def take (b : Bucket) (now : Nat) : Bucket := { b with tat := max b.tat now + b.budget.interval }

/-- The bucket has all its tokens. -/
def isFull (b : Bucket) (now : Nat) : Bool := b.tat ≤ now

/-- A bucket that may be absent, at `now`. -/
def orFull (o : Option Bucket) (B : Budget) (now : Nat) : Bucket := o.getD (full B now)

/-- The bucket is one of the budget. -/
def Of (B : Budget) (o : Option Bucket) : Prop := ∀ b, o = some b → b.budget = B

/-- What can happen to a bucket at `now`: nothing, it is dropped when full, or a request is charged
to it. -/
inductive Moves (B : Budget) (o : Option Bucket) (now : Nat) : Bool → Option Bucket → Prop
  | idle : Moves B o now false o
  | dropped : o = some b → b.isFull now = true → Moves B o now false none
  | charged : (orFull o B now).admits now = true →
    Moves B o now true (some ((orFull o B now).take now))

/-- The moves of a bucket in order of time, each with whether a request was charged, and the clock
and the bucket after them. -/
inductive Trace (B : Budget) : List (Nat × Bool) → Nat → Option Bucket → Prop
  | start : Of B o → Trace B [] clock o
  | move : Trace B ms clock o → clock ≤ now → Moves B o now charged o' →
    Trace B (ms ++ [(now, charged)]) now o'

variable {B : Budget} {b : Bucket} {o o' : Option Bucket} {now clock t n w : Nat} {charged : Bool}

@[simp] theorem budget_full : (full B now).budget = B := rfl

@[simp] theorem budget_take : (b.take now).budget = b.budget := rfl

@[simp] theorem orFull_none : orFull none B now = full B now := rfl

@[simp] theorem orFull_some : orFull (some b) B now = b := rfl

/-- A full bucket admits. -/
theorem admits_full : (full B now).admits now = true := by
  simp [admits, full]

theorem budget_orFull (ho : Of B o) : (orFull o B now).budget = B := by
  cases o with
  | none => rfl
  | some b => exact ho b rfl

theorem Moves.of (h : Moves B o now charged o') (ho : Of B o) : Of B o' := by
  cases h with
  | idle => exact ho
  | dropped => intro b hb; cases hb
  | charged =>
    intro b hb
    cases hb
    rw [budget_take, budget_orFull ho]

/-- Dropping the buckets that are full moves each of them. -/
theorem Moves.filter : Moves B o now false (o.filter fun b => !b.isFull now) := by
  cases o with
  | none => exact .idle
  | some b =>
    cases hf : b.isFull now with
    | true =>
      rw [Option.filter_some_neg (by simp [hf])]
      exact .dropped rfl hf
    | false =>
      rw [Option.filter_some_pos (by simp [hf])]
      exact .idle

theorem Trace.of {ms : List (Nat × Bool)} (h : Trace B ms clock o) : Of B o := by
  induction h with
  | start ho => exact ho
  | move _ _ hm ih => exact hm.of ih

/-- A bucket of the budget, with its arrival time at most all its tokens ahead. -/
def Bounded (B : Budget) (now : Nat) (o : Option Bucket) : Prop :=
  ∀ b, o = some b → b.budget = B ∧ b.tat ≤ now + B.capacity * B.interval

theorem Bounded.wait (h : Bounded B clock o) (hle : clock ≤ now) : Bounded B now o := by
  intro b hb
  obtain ⟨hB, htat⟩ := h b hb
  exact ⟨hB, htat.trans (Nat.add_le_add_right hle _)⟩

theorem Moves.bounded (h : Moves B o now charged o') (ho : Bounded B clock o) (hle : clock ≤ now) :
    Bounded B now o' := by
  cases h with
  | idle => exact ho.wait hle
  | dropped => intro b hb; cases hb
  | charged hadm =>
    intro b hb
    cases hb
    have hB : (orFull o B now).budget = B := budget_orFull fun b hb => (ho b hb).1
    have htat := of_decide_eq_true hadm
    rw [hB] at htat
    refine ⟨hB, ?_⟩
    have hmul : B.capacity * B.interval = B.interval * (B.capacity - 1) + B.interval := by
      rw [← Nat.mul_succ, Nat.succ_eq_add_one, Nat.sub_add_cancel B.capacity_pos, Nat.mul_comm]
    rw [take, hB, hmul]
    dsimp only
    omega

/-! ## The window bound -/

/-- `n` requests charged since `t` have moved the arrival time ahead. -/
def Ahead (B : Budget) (t n clock : Nat) (o : Option Bucket) : Prop :=
  n = 0 ∨ t + n * B.interval ≤ (o.map tat).getD clock

theorem Ahead.wait (h : Ahead B t n clock o) (hle : clock ≤ now) : Ahead B t n now o := by
  rcases h with h | h
  · exact .inl h
  · right
    cases o with
    | none => exact h.trans hle
    | some b => exact h

theorem Ahead.drop (h : Ahead B t n clock (some b)) (hfull : b.isFull now = true) :
    Ahead B t n now none := by
  rcases h with h | h
  · exact .inl h
  · exact .inr (h.trans (of_decide_eq_true hfull))

/-- The arrival time of a bucket that may be absent is at most that of the bucket used. -/
theorem reach_le (hle : clock ≤ now) : (o.map tat).getD clock ≤ max (orFull o B now).tat now := by
  cases o with
  | none => exact hle.trans (le_max_right _ _)
  | some b => exact le_max_left _ _

theorem Ahead.charge (h : Ahead B t n clock o) (ho : Of B o) (hle : clock ≤ now) :
    Ahead B t n now (some ((orFull o B now).take now)) ∧
      (t ≤ now → Ahead B t (n + 1) now (some ((orFull o B now).take now))) := by
  have hreach := reach_le (B := B) (o := o) hle
  have htat : ((orFull o B now).take now).tat = max (orFull o B now).tat now + B.interval := by
    rw [take, budget_orFull ho]
  constructor
  · rcases h with h | h
    · exact .inl h
    · right
      rw [Option.map_some, Option.getD_some, htat]
      omega
  · intro ht
    right
    rw [Option.map_some, Option.getD_some, htat, Nat.add_mul, Nat.one_mul]
    rcases h with rfl | h
    · have := le_max_right (orFull o B now).tat now
      omega
    · omega

/-- A request that is admitted in the window finds fewer charged than the bound. -/
theorem Ahead.lt (h : Ahead B t n clock o) (ho : Of B o) (hle : clock ≤ now)
    (hadm : (orFull o B now).admits now = true) (hw : now ≤ t + w) :
    n < B.capacity + w / B.interval := by
  rcases h with rfl | h
  · exact Nat.add_pos_left B.capacity_pos _
  · have hreach : (o.map tat).getD clock ≤ now + B.interval * (B.capacity - 1) := by
      cases o with
      | none => exact hle.trans (Nat.le_add_right _ _)
      | some b =>
        have hb := of_decide_eq_true hadm
        rw [orFull_some, ho b rfl] at hb
        exact hb
    have hmul : n * B.interval ≤ w + (B.capacity - 1) * B.interval := by
      rw [Nat.mul_comm (B.capacity - 1)]
      omega
    have hdiv : n ≤ w / B.interval + (B.capacity - 1) := by
      rw [← Nat.add_mul_div_right w (B.capacity - 1) B.interval_pos]
      exact (Nat.le_div_iff_mul_le B.interval_pos).mpr hmul
    have := B.capacity_pos
    omega

/-- Whether a move charges a request between `t` and `t + w`. -/
def inWindow (t w : Nat) (m : Nat × Bool) : Bool := m.2 && t ≤ m.1 && m.1 ≤ t + w

/-- A window of length `w` has at most `capacity + w / interval` requests charged to the bucket. -/
theorem Trace.window {ms : List (Nat × Bool)} (h : Trace B ms clock o) (t w : Nat) :
    ms.countP (inWindow t w) ≤ B.capacity + w / B.interval := by
  suffices hA : Ahead B t (ms.countP (inWindow t w)) clock o ∧
      ms.countP (inWindow t w) ≤ B.capacity + w / B.interval from hA.2
  induction h with
  | start => exact ⟨.inl rfl, Nat.zero_le _⟩
  | @move ms clock o now charged o' htr hle hm ih =>
    obtain ⟨hA, hbound⟩ := ih
    rw [List.countP_append, List.countP_singleton]
    cases hm with
    | idle => exact ⟨hA.wait hle, hbound⟩
    | dropped ho hfull =>
      subst ho
      exact ⟨hA.drop hfull, hbound⟩
    | charged hadm =>
      have hcharge := hA.charge htr.of hle
      cases hin : inWindow t w (now, true) with
      | false =>
        exact ⟨hcharge.1, hbound⟩
      | true =>
        have hin' : t ≤ now ∧ now ≤ t + w := by simpa [inWindow] using hin
        exact ⟨hcharge.2 hin'.1, hA.lt htr.of hle hadm hin'.2⟩

/-! ## Buckets of a system -/

variable {σ ℓ : Type} {step : σ → ℓ → Option σ} {s u : σ} {h : List (Lts.Step σ ℓ)}

/-- A bucket that every step of an execution only moves has a trace. -/
theorem trace_of_exec (clock : σ → Nat) (bucket : σ → Option Bucket)
    (charged : Lts.Step σ ℓ → Bool) (H : Lts.Exec step s h u) (h0 : Of B (bucket s))
    (hmoves : ∀ e ∈ h, step e.pre e.label = some e.post → clock e.pre ≤ clock e.post ∧
      Moves B (bucket e.pre) (clock e.post) (charged e) (bucket e.post)) :
    Trace B (h.map fun e => (clock e.post, charged e)) (clock u) (bucket u) := by
  induction H with
  | nil => exact .start h0
  | @snoc h m l u H hs ih =>
    have hlast := hmoves ⟨m, l, u⟩ (by simp) hs
    rw [List.map_append, List.map_singleton]
    refine .move (ih fun e he => hmoves e (List.mem_append_left _ he)) hlast.1 hlast.2

/-- The window bound over an execution. -/
theorem charged_le (clock : σ → Nat) (bucket : σ → Option Bucket)
    (charged : Lts.Step σ ℓ → Bool) (H : Lts.Exec step s h u) (h0 : Of B (bucket s))
    (hmoves : ∀ e ∈ h, step e.pre e.label = some e.post → clock e.pre ≤ clock e.post ∧
      Moves B (bucket e.pre) (clock e.post) (charged e) (bucket e.post)) (t w : Nat) :
    h.countP (fun e => charged e && t ≤ clock e.post && clock e.post ≤ t + w) ≤
      B.capacity + w / B.interval := by
  have hw := (trace_of_exec clock bucket charged H h0 hmoves).window t w
  rwa [List.countP_map] at hw

end Bucket

end TokenBucket
