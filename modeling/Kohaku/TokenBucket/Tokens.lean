import Kohaku.TokenBucket.Gcra

/-!
# Token buckets as a number of tokens

The textbook bucket holds a rational number of tokens, regains one per interval up to its capacity,
admits a request while it holds at least one, and gives one to each request admitted. `level` reads
that number off an arrival time; the lemmas say that the operations of `Bucket` are the textbook's.
-/

namespace TokenBucket

variable {B : Budget} {tokens : ℚ}

namespace Budget

/-- The tokens after the time `dt`. -/
def refill (B : Budget) (tokens : ℚ) (dt : Nat) : ℚ := min B.capacity (tokens + dt / B.interval)

theorem interval_cast_pos (B : Budget) : (0 : ℚ) < B.interval := Nat.cast_pos.mpr B.interval_pos

/-- A bucket that holds at most its capacity may be refilled at any times in between. -/
theorem refill_refill (dt dt' : Nat) :
    B.refill (B.refill tokens dt) dt' = B.refill tokens (dt + dt') := by
  have hnonneg : (0 : ℚ) ≤ dt' / B.interval := div_nonneg (Nat.cast_nonneg _) B.interval_cast_pos.le
  have hsum : tokens + dt / B.interval + dt' / B.interval =
      tokens + (dt + dt' : Nat) / B.interval := by
    push_cast
    ring
  unfold refill
  rw [← hsum, ← min_add_add_right, ← min_assoc, min_eq_left (le_add_of_nonneg_right hnonneg)]

theorem refill_zero (h : tokens ≤ B.capacity) : B.refill tokens 0 = tokens := by
  simp [refill, h]

end Budget

namespace Bucket

variable {o : Option Bucket} {now clock : Nat}

/-- The tokens of a bucket that may be absent. -/
def level (B : Budget) (o : Option Bucket) (now : Nat) : ℚ :=
  B.capacity - ((orFull o B now).tat - now : Nat) / B.interval

theorem level_le : level B o now ≤ B.capacity := by
  have : (0 : ℚ) ≤ ((orFull o B now).tat - now : Nat) / B.interval :=
    div_nonneg (Nat.cast_nonneg _) B.interval_cast_pos.le
  unfold level
  linarith

/-- An absent bucket is full. -/
@[simp] theorem level_none : level B none now = B.capacity := by
  simp [level, full]

theorem level_of_le {b : Bucket} (h : b.tat ≤ now) : level B (some b) now = B.capacity := by
  simp [level, Nat.sub_eq_zero_of_le h]

/-- Time refills the bucket. -/
theorem level_wait (h : clock ≤ now) :
    level B o now = B.refill (level B o clock) (now - clock) := by
  have hpos := B.interval_cast_pos
  cases o with
  | none =>
    have hle : (B.capacity : ℚ) ≤ B.capacity + (now - clock : Nat) / B.interval :=
      le_add_of_nonneg_right (div_nonneg (Nat.cast_nonneg _) hpos.le)
    rw [level_none, level_none, Budget.refill, min_eq_left hle]
  | some b =>
    unfold Budget.refill
    rcases Nat.le_total b.tat now with hb | hb
    · have hle : ((b.tat - clock : Nat) : ℚ) / B.interval ≤ (now - clock : Nat) / B.interval :=
        div_le_div_of_nonneg_right (Nat.cast_le.mpr (by omega)) hpos.le
      rw [level_of_le hb, level, orFull_some, min_eq_left (by linarith)]
    · have hsum : ((b.tat - clock : Nat) : ℚ) = (b.tat - now : Nat) + (now - clock : Nat) := by
        rw [← Nat.cast_add]
        congr 1
        omega
      have heq : level B (some b) clock + (now - clock : Nat) / B.interval =
          level B (some b) now := by
        rw [level, level, orFull_some, orFull_some, hsum, add_div]
        ring
      rw [heq, min_eq_right level_le]

/-- Dropping full buckets does not change the tokens. -/
theorem level_filter : level B (o.filter fun b => !b.isFull now) now = level B o now := by
  cases o with
  | none => rfl
  | some b =>
    cases hf : b.isFull now with
    | true =>
      rw [Option.filter_some_neg (by simp [hf]), level_none, level_of_le (of_decide_eq_true hf)]
    | false => rw [Option.filter_some_pos (by simp [hf])]

/-- A bucket admits a request while it holds a token. -/
theorem admits_iff_level (ho : Of B o) :
    (orFull o B now).admits now = true ↔ 1 ≤ level B o now := by
  have hcap : ((B.capacity - 1 : Nat) : ℚ) = B.capacity - 1 := by
    rw [Nat.cast_sub B.capacity_pos, Nat.cast_one]
  have hlevel : 1 ≤ level B o now ↔
      ((orFull o B now).tat - now : Nat) / (B.interval : ℚ) ≤ (B.capacity - 1 : Nat) := by
    rw [level, hcap]
    constructor <;> intro h <;> linarith
  rw [hlevel, div_le_iff₀ B.interval_cast_pos, ← Nat.cast_mul, Nat.cast_le, admits,
    decide_eq_true_eq, budget_orFull ho, Nat.mul_comm, Nat.sub_le_iff_le_add']

/-- A request takes one token. -/
theorem level_take (ho : Of B o) :
    level B (some ((orFull o B now).take now)) now = level B o now - 1 := by
  have htat : ((orFull o B now).take now).tat - now =
      ((orFull o B now).tat - now) + B.interval := by
    rw [take, budget_orFull ho]
    dsimp only
    omega
  rw [level, orFull_some, htat, level, Nat.cast_add, add_div, div_self B.interval_cast_pos.ne']
  ring

end Bucket

end TokenBucket
