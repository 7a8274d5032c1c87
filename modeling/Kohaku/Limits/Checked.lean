import Kohaku.Limits.MailBudget

/-!
# The limiter with Rust's arithmetic

`Duration` is a `u64` of seconds with nanoseconds, capacities are `u32`, and arithmetic on them
panics when it leaves that range or divides by zero. Here each function of the limiter that computes
with durations is written with such arithmetic, `none` being the panic. The lemmas say that nothing
panics, and so the functions are those of the model, while the buckets are `Small`: at most an hour
of tokens, and an arrival time at most an hour ahead.
-/

namespace Kohaku.Limits.Checked

open TokenBucket

/-- `Duration::MAX`, in nanoseconds. -/
def durationMax : Duration := fromSecs (2 ^ 64) - 1

/-- `Duration + Duration`. -/
def add (a b : Duration) : Option Duration := if a + b ≤ durationMax then some (a + b) else none

/-- `Duration * u32`. -/
def mul (a : Duration) (n : Nat) : Option Duration :=
  if a * n ≤ durationMax then some (a * n) else none

/-- `Duration / u32`. -/
def div (a : Duration) (n : Nat) : Option Duration := if n = 0 then none else some (a / n)

/-- `u32 - u32`. -/
def subU32 (a b : Nat) : Option Nat := if b ≤ a then some (a - b) else none

/-- `u32 * u32`. -/
def mulU32 (a b : Nat) : Option Nat := if a * b < 2 ^ 32 then some (a * b) else none

/-! ## The functions of the limiter -/

/-- `Budget::per`: the capacity and the interval. -/
def per (capacity : Nat) (window : Duration) : Option (Nat × Duration) := do
  let interval ← div window capacity
  return (capacity, interval)

/-- `Budget::times`. -/
def times (budget : Nat × Duration) (factor : Nat) : Option (Nat × Duration) := do
  let capacity ← mulU32 budget.1 factor
  let interval ← div budget.2 factor
  return (capacity, interval)

/-- `RateClass::budget`. -/
def classBudget : RateClass → Option (Nat × Duration)
  | .read => per 300 (fromSecs 60)
  | .login => per 10 (fromSecs (15 * 60))
  | .reset => per 5 (fromSecs (60 * 60))

/-- The budget of an IPv6 /48. -/
def classAggregate (c : RateClass) : Option (Nat × Duration) := do
  times (← classBudget c) aggregateFactor

/-- `Bucket::admits`. -/
def admits (b : Bucket) (now : Duration) : Option Bool := do
  let tolerance ← mul b.budget.interval (← subU32 b.budget.capacity 1)
  return b.tat ≤ (← add now tolerance)

/-- `Bucket::take`. -/
def take (b : Bucket) (now : Duration) : Option Bucket := do
  return { b with tat := ← add (max b.tat now) b.budget.interval }

/-- Whether one keyed bucket holds a token. -/
def admitsKey (l : Limiter) (d : Demand) (now : Duration) : Key × Budget → Option Bool
  | (key, budget) =>
    match l.buckets.lookup key with
    | some bucket => admits bucket now
    | none => if l.useOverflow d then some true else admits (.full budget now) now

/-- The overflow bucket, if it is needed, has a token. -/
def admitsOverflow (l : Limiter) (d : Demand) (now : Duration) : Option Bool :=
  if l.useOverflow d then
    match l.overflow.lookup d.overflow.1 with
    | some bucket => admits bucket now
    | none => some true
  else some true

/-- Every bucket that is asked has a token. -/
def admitted (l : Limiter) (d : Demand) (now : Duration) (extraAdmits : Duration → Option Bool) :
    Option Bool := do
  if ← d.keys.allM (admitsKey l d now) then
    if ← admitsOverflow l d now then
      extraAdmits now
    else return false
  else return false

/-- A token is taken from the bucket of a key, which is made when there is room for it. -/
def takeKey (useOverflow : Bool) (now : Duration) (buckets : AList fun _ : Key => Bucket) :
    Key × Budget → Option (AList fun _ : Key => Bucket)
  | (key, budget) =>
    match buckets.lookup key with
    | some bucket => do return buckets.insert key (← take bucket now)
    | none =>
      if useOverflow then some buckets
      else do return buckets.insert key (← take (.full budget now) now)

/-- A token is taken from the bucket of each key. -/
def takeKeys (l : Limiter) (d : Demand) (now : Duration) : Option (AList fun _ : Key => Bucket) :=
  d.keys.foldlM (takeKey (l.useOverflow d) now) l.buckets

/-- A token is taken from the overflow bucket, if it is needed. -/
def takeOverflow (l : Limiter) (d : Demand) (now : Duration) :
    Option (AList fun _ : Overflow => Bucket) :=
  let (key, budget) := d.overflow
  if l.useOverflow d then do
    return l.overflow.insert key (← take ((l.overflow.lookup key).getD (.full budget now)) now)
  else some l.overflow

/-- `Limiter::admit_with`, with every operation checked. -/
def admitWith (l : Limiter) (d : Demand) (now : Instant) (extraAdmits : Duration → Option Bool) :
    Option (Bool × Limiter) := do
  let now := l.elapsed now
  if ← admitted l d now extraAdmits then
    let buckets ← takeKeys l d now
    let overflow ← takeOverflow l d now
    return (true, { l with buckets, overflow })
  else return (false, l)

/-- A request, with the instance bucket if it is shared. -/
def request (s : Metered) (a : Ask) : Option (Bool × Limiter × MailBudget) :=
  if a.shared then do
    match ← admitWith s.limiter a.demand a.now fun t => admits s.mail.instanceBucket t with
    | (true, l) => return (true, l, ⟨← take s.mail.instanceBucket (s.limiter.elapsed a.now)⟩)
    | (false, l) => return (false, l, s.mail)
  else do
    let (answer, l) ← admitWith s.limiter a.demand a.now fun _ => some true
    return (answer, l, s.mail)

/-! ## Small buckets -/

/-- At most an hour of tokens. -/
def Fits (B : Budget) : Prop := B.capacity * B.interval ≤ hour

/-- A bucket within an hour of the time `now`. -/
structure Small (now : Duration) (b : Bucket) : Prop where
  fits : Fits b.budget
  tat_le : b.tat ≤ now + b.budget.capacity * b.budget.interval

variable {B : Budget} {b : Bucket} {o : Option Bucket} {now clock : Duration} {l : Limiter}
  {d : Demand} {p : Key × Budget} {u : Bool} {m : AList fun _ : Key => Bucket}
  {keys : List (Key × Budget)}

theorem Fits.interval_le (h : Fits B) : B.interval ≤ hour :=
  (Nat.le_mul_of_pos_left _ B.capacity_pos).trans h

/-- Times at which the arithmetic stays in range. -/
def InRange (now : Duration) : Prop := now < fromSecs (2 ^ 62)

theorem InRange.of_lt {now start : Nat} (h : now < start + fromSecs (2 ^ 62)) :
    InRange (now - start) := by
  rcases Nat.le_total start now with hle | hle
  · exact Nat.sub_lt_left_of_lt_add hle h
  · rw [InRange, Nat.sub_eq_zero_of_le hle]
    decide

/-- Two hours more are still in range. -/
theorem InRange.add_le (h : InRange now) {x : Nat} (hx : x ≤ now + 2 * hour) : x ≤ durationMax := by
  unfold InRange at h
  have : fromSecs (2 ^ 62) + 2 * hour ≤ durationMax := by decide
  exact (hx.trans (Nat.add_le_add_right h.le _)).trans this

theorem admits_eq (hnow : InRange now) (hb : Fits b.budget) :
    admits b now = some (b.admits now) := by
  have htol : b.budget.interval * (b.budget.capacity - 1) ≤ hour := by
    rw [Nat.mul_comm]
    exact (Nat.mul_le_mul_right _ (Nat.sub_le _ _)).trans hb
  have hmul : b.budget.interval * (b.budget.capacity - 1) ≤ durationMax :=
    hnow.add_le (htol.trans (by omega))
  have hadd : now + b.budget.interval * (b.budget.capacity - 1) ≤ durationMax :=
    hnow.add_le (by omega)
  have hcap : 1 ≤ b.budget.capacity := b.budget.capacity_pos
  simp [admits, subU32, mul, add, hcap, hmul, hadd, Bucket.admits]

theorem take_eq (hnow : InRange now) (hb : Small now b) : take b now = some (b.take now) := by
  have hadd : max b.tat now + b.budget.interval ≤ durationMax := by
    have h1 := hb.tat_le
    have h2 := hb.fits.interval_le
    have h3 : b.budget.capacity * b.budget.interval ≤ hour := hb.fits
    exact hnow.add_le (by omega)
  simp [take, add, hadd, Bucket.take]

theorem Small.full (h : Fits B) : Small now (.full B now) := ⟨h, Nat.le_add_right _ _⟩

theorem Small.orFull (hB : Fits B) (ho : ∀ b, o = some b → Small now b) :
    Small now (Bucket.orFull o B now) := by
  cases o with
  | none => exact .full hB
  | some b => exact ho b rfl

/-! ## Nothing panics -/

/-- Every bucket of the limiter is small. -/
structure SmallLimiter (now : Duration) (l : Limiter) : Prop where
  key : ∀ k b, l.buckets.lookup k = some b → Small now b
  overflow : ∀ o b, l.overflow.lookup o = some b → Small now b

/-- The demand's budgets fit. -/
structure FitsDemand (d : Demand) : Prop where
  key : ∀ p ∈ d.keys, Fits p.2
  overflow : Fits d.overflow.2

theorem allM_eq {α : Type} {f : α → Option Bool} {g : α → Bool} {as : List α}
    (h : ∀ a ∈ as, f a = some (g a)) : as.allM f = some (as.all g) := by
  induction as with
  | nil => rfl
  | cons a as ih =>
    rw [List.allM, h a List.mem_cons_self, List.all_cons, Option.bind_eq_bind, Option.bind_some]
    cases g a with
    | true => exact ih fun a ha => h a (List.mem_cons_of_mem _ ha)
    | false => rfl

/-- The loop takes from buckets that no earlier round touched. -/
theorem foldlM_takeKey_eq (hnow : InRange now) (hnd : (keys.map Prod.fst).Nodup)
    (hkeys : ∀ p ∈ keys, Fits p.2)
    (hm : ∀ p ∈ keys, ∀ b, m.lookup p.1 = some b → Small now b) :
    keys.foldlM (takeKey u now) m = some (keys.foldl (Limiter.takeKey u now) m) := by
  induction keys generalizing m with
  | nil => rfl
  | cons p keys ih =>
    rw [List.map_cons, List.nodup_cons] at hnd
    have htake : takeKey u now m p = some (Limiter.takeKey u now m p) := by
      cases hb : m.lookup p.1 with
      | some b =>
        rw [Limiter.takeKey_of_some hb]
        simp [takeKey, hb, take_eq hnow (hm p List.mem_cons_self b hb)]
      | none =>
        rw [Limiter.takeKey_of_none hb]
        cases u with
        | true => simp [takeKey, hb]
        | false => simp [takeKey, hb, take_eq hnow (Small.full (hkeys p List.mem_cons_self))]
    rw [List.foldlM_cons, htake, List.foldl_cons, Option.bind_eq_bind, Option.bind_some]
    refine ih hnd.2 (fun q hq => hkeys q (List.mem_cons_of_mem _ hq)) fun q hq b hb => ?_
    have hne : q.1 ≠ p.1 := fun h => hnd.1 (h ▸ List.mem_map_of_mem hq)
    rw [Limiter.lookup_takeKey_ne hne] at hb
    exact hm q (List.mem_cons_of_mem _ hq) b hb

section
variable (hnow : InRange now) (hl : SmallLimiter now l) (hd : FitsDemand d)
include hnow hl hd

theorem admitsKey_eq (hp : p ∈ d.keys) : admitsKey l d now p = some
    (match l.buckets.lookup p.1 with
      | some bucket => bucket.admits now
      | none => if l.useOverflow d then true else (Bucket.full p.2 now).admits now) := by
  cases hb : l.buckets.lookup p.1 with
  | some b => simp [admitsKey, hb, admits_eq hnow (hl.key _ b hb).fits]
  | none =>
    cases hu : l.useOverflow d with
    | true => simp [admitsKey, hb, hu]
    | false => simp [admitsKey, hb, hu, admits_eq hnow (b := .full p.2 now) (hd.key p hp)]

omit hd in
theorem admitsOverflow_eq : admitsOverflow l d now = some (!l.useOverflow d ||
    (l.overflow.lookup d.overflow.1).all fun bucket => bucket.admits now) := by
  unfold admitsOverflow
  cases hu : l.useOverflow d with
  | false => rfl
  | true =>
    cases hb : l.overflow.lookup d.overflow.1 with
    | none => rfl
    | some b => simp [admits_eq hnow (hl.overflow _ b hb).fits]

theorem admitted_eq {extraAdmits : Duration → Option Bool} {extra : Duration → Bool}
    (hextra : extraAdmits now = some (extra now)) :
    admitted l d now extraAdmits = some (l.admitted d now extra) := by
  unfold admitted Limiter.admitted
  rw [allM_eq fun p hp => admitsKey_eq hnow hl hd hp, admitsOverflow_eq hnow hl, hextra]
  generalize d.keys.all _ = keys, (!l.useOverflow d || _) = overflow
  cases keys <;> cases overflow <;> rfl

theorem takeKeys_eq : takeKeys l d now = some (l.takeKeys d now) :=
  foldlM_takeKey_eq hnow d.keys_nodup hd.key fun p _ b hb => hl.key p.1 b hb

theorem takeOverflow_eq : takeOverflow l d now = some (l.takeOverflow d now) := by
  have hsmall : Small now ((l.overflow.lookup d.overflow.1).getD (.full d.overflow.2 now)) :=
    Small.orFull hd.overflow (hl.overflow d.overflow.1)
  unfold takeOverflow Limiter.takeOverflow
  cases hu : l.useOverflow d with
  | true => simp [take_eq hnow hsmall]
  | false => rfl

end

/-- `admit_with` does not panic. -/
theorem admitWith_eq {now : Instant} (hnow : InRange (l.elapsed now))
    (hl : SmallLimiter (l.elapsed now) l) (hd : FitsDemand d)
    {extraAdmits : Duration → Option Bool} (extra : Duration → Bool)
    (hextra : extraAdmits (l.elapsed now) = some (extra (l.elapsed now))) :
    admitWith l d now extraAdmits = some (l.admitWith d now extra) := by
  unfold admitWith
  dsimp only
  rw [admitted_eq hnow hl hd hextra, takeKeys_eq hnow hl hd, takeOverflow_eq hnow hl hd]
  cases hadm : l.admitted d (l.elapsed now) extra with
  | true => rw [Limiter.admitWith_of_true hadm]; rfl
  | false => rw [Limiter.admitWith_of_false hadm]; rfl

/-- No request panics while the buckets are small. -/
theorem request_eq {s : Metered} {a : Ask} (hnow : InRange (s.limiter.elapsed a.now))
    (hl : SmallLimiter (s.limiter.elapsed a.now) s.limiter) (hd : FitsDemand a.demand)
    (hmail : Small (s.limiter.elapsed a.now) s.mail.instanceBucket) :
    request s a = some (s.request a) := by
  unfold request Metered.request
  split
  · rw [admitWith_eq hnow hl hd (fun t => s.mail.instanceBucket.admits t)
      (admits_eq hnow hmail.fits), MailBudget.admitWith, Option.bind_eq_bind, Option.bind_some]
    split
    · rw [take_eq hnow hmail]
      simp [*]
    · simp [*]
  · rw [admitWith_eq hnow hl hd (fun _ => true) rfl]
    rfl

end Kohaku.Limits.Checked
