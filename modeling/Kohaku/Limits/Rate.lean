import Kohaku.Keys
import Kohaku.Map.Retain
import Kohaku.TokenBucket.Gcra

/-!
# The rate limiter

`limits::rate`: token buckets per network prefix and per mail source and address, in one map of
bounded size, with one overflow bucket per kind for what no longer fits. `Duration` is counted in
nanoseconds, and `Instant` in nanoseconds since an arbitrary origin.
-/

namespace Kohaku.Limits

open TokenBucket

/-- `Duration`, in nanoseconds. -/
abbrev Duration := Nat

/-- `Instant`, in nanoseconds. -/
abbrev Instant := Nat

/-- `Duration::from_secs`. -/
def fromSecs (secs : Nat) : Duration := secs * 1000000000

/-- Buckets held at most. -/
def maxBuckets : Nat := 100000

/-- A rate-limit class of routes. -/
inductive RateClass
  | read
  | login
  | reset
  deriving DecidableEq, Repr

/-- Requests per window for one IPv4 /32 or IPv6 /64; a /48 gets 8 times this. -/
def RateClass.budget : RateClass → Budget
  | .read => .per 300 (fromSecs 60) (by decide)
  | .login => .per 10 (fromSecs (15 * 60)) (by decide)
  | .reset => .per 5 (fromSecs (60 * 60)) (by decide)

/-- IPv6 /48 aggregates hold this many times the budget of a /64. -/
def aggregateFactor : Nat := 8

/-- The budget of an IPv6 /48, a multiple of that of a /64. -/
def RateClass.aggregate (c : RateClass) : Budget :=
  c.budget.times aggregateFactor (by cases c <;> decide)

/-! ## Keys and demands -/

/-- `IpAddr`, as the bits of the address. -/
inductive IpAddr
  | v4 (bits : BitVec 32)
  | v6 (bits : BitVec 128)
  deriving DecidableEq, Repr

/-- The network a bucket counts. -/
inductive Prefix
  | v4 (bits : BitVec 32)
  | v6Slash64 (top : BitVec 64)
  | v6Slash48 (top : BitVec 64)
  deriving DecidableEq, Repr

/-- The /32 or /64 of a (canonical) client address, plus its /48 for IPv6. -/
def prefixes : IpAddr → Prefix × Option Prefix
  | .v4 bits => (.v4 bits, none)
  | .v6 bits =>
    let top := (bits >>> 64).setWidth 64
    (.v6Slash64 top, some (.v6Slash48 (top >>> 16)))

/-- The source of a mail bucket: IPv4 /32 or IPv6 /48. -/
def mailSource (address : IpAddr) : Prefix :=
  match prefixes address with
  | (v4, none) => v4
  | (_, some slash48) => slash48

/-- What a bucket is for. -/
inductive Key
  | ofClass (c : RateClass) (network : Prefix)
  | mailSource (network : Prefix)
  | mailAddress (mac : Vector UInt8 32)
  deriving DecidableEq

/-- What an overflow bucket is for. -/
inductive Overflow
  | ofClass (c : RateClass)
  | mailSource
  | mailAddress
  deriving DecidableEq, Repr

/-- One request's demand on the limiter, made by `Demand::class`, `Demand::mail_address` or
`Demand::mail_source`. -/
inductive Demand
  | ofClass (c : RateClass) (address : IpAddr)
  | mailAddress (key : Vector UInt8 32) (budget : Budget)
  | mailSource (address : IpAddr) (budget : Budget)
  deriving DecidableEq

namespace Demand

/-- The buckets the request needs by key, with their budgets. -/
def keys : Demand → List (Key × Budget)
  | ofClass c address =>
    let (own, aggregate) := prefixes address
    (.ofClass c own, c.budget) :: aggregate.toList.map fun slash48 =>
      (.ofClass c slash48, c.aggregate)
  | mailAddress key budget => [(.mailAddress key, budget)]
  | mailSource address budget => [(.mailSource (Limits.mailSource address), budget)]

/-- The overflow bucket used instead when a missing one cannot be created. -/
def overflow : Demand → Overflow × Budget
  | ofClass c _ => (.ofClass c, c.budget)
  | mailAddress _ budget => (.mailAddress, budget)
  | mailSource _ budget => (.mailSource, budget)

theorem keys_nodup (d : Demand) : (d.keys.map Prod.fst).Nodup := by
  cases d with
  | ofClass c address => cases address <;> simp [keys, prefixes]
  | mailAddress | mailSource => exact List.nodup_singleton _

end Demand

/-! ## The limiter -/

/-- Every bucket, in memory only. -/
structure Limiter where
  start : Instant
  buckets : AList fun _ : Key => Bucket
  overflow : AList fun _ : Overflow => Bucket

namespace Limiter

/-- A limiter without buckets. -/
def new (start : Instant) : Limiter := ⟨start, ∅, ∅⟩

/-- The time since the limiter was made. -/
def elapsed (l : Limiter) (now : Instant) : Duration := now - l.start

/-- The demanded keys without a bucket. -/
def missing (l : Limiter) (d : Demand) : Nat := d.keys.countP fun (key, _) => key ∉ l.buckets

/-- Buckets are missing and there is no room for all of them. -/
def useOverflow (l : Limiter) (d : Demand) : Bool :=
  0 < l.missing d && maxBuckets < l.buckets.keys.length + l.missing d

/-- Whether every bucket the request needs holds a token. -/
def admitted (l : Limiter) (d : Demand) (now : Duration) (extraAdmits : Duration → Bool) : Bool :=
  (d.keys.all fun (key, budget) =>
    match l.buckets.lookup key with
    | some bucket => bucket.admits now
    | none => if l.useOverflow d then true else (Bucket.full budget now).admits now) &&
  (!l.useOverflow d || (l.overflow.lookup d.overflow.1).all fun bucket => bucket.admits now) &&
  extraAdmits now

/-- One round of the loop that takes a token from each keyed bucket. -/
def takeKey (useOverflow : Bool) (now : Duration) (buckets : AList fun _ : Key => Bucket) :
    Key × Budget → AList fun _ : Key => Bucket
  | (key, budget) =>
    match buckets.lookup key with
    | some bucket => buckets.insert key (bucket.take now)
    | none =>
      if useOverflow then buckets else buckets.insert key ((Bucket.full budget now).take now)

/-- A token is taken from the bucket of each key. -/
def takeKeys (l : Limiter) (d : Demand) (now : Duration) : AList fun _ : Key => Bucket :=
  d.keys.foldl (takeKey (l.useOverflow d) now) l.buckets

/-- A token is taken from the overflow bucket, if it is needed. -/
def takeOverflow (l : Limiter) (d : Demand) (now : Duration) : AList fun _ : Overflow => Bucket :=
  let (key, budget) := d.overflow
  if l.useOverflow d then
    l.overflow.insert key (((l.overflow.lookup key).getD (.full budget now)).take now)
  else l.overflow

/-- Admits the request only when every bucket it needs holds a token and `extraAdmits` agrees, then
takes one from each; a rejected request takes none. The caller's `extra_take` runs when the answer
is `true`. -/
def admitWith (l : Limiter) (d : Demand) (now : Instant) (extraAdmits : Duration → Bool) :
    Bool × Limiter :=
  let now := l.elapsed now
  if l.admitted d now extraAdmits then
    (true, { l with buckets := l.takeKeys d now, overflow := l.takeOverflow d now })
  else (false, l)

/-- `Limiter::admit`. -/
def admitDemand (l : Limiter) (d : Demand) (now : Instant) : Bool × Limiter :=
  l.admitWith d now fun _ => true

/-- Removes every bucket refilled to its full budget. -/
def sweep (l : Limiter) (now : Instant) : Limiter :=
  let now := l.elapsed now
  { l with
    buckets := l.buckets.retain fun bucket => !bucket.isFull now
    overflow := l.overflow.retain fun bucket => !bucket.isFull now }

/-! ## What a call does to one bucket -/

variable {l : Limiter} {d : Demand} {u : Bool} {now : Duration} {k : Key} {B : Budget}
  {m : AList fun _ : Key => Bucket} {p : Key × Budget} {keys : List (Key × Budget)}
  {extra : Duration → Bool}

theorem takeKey_of_some (h : m.lookup p.1 = some b) :
    takeKey u now m p = m.insert p.1 (b.take now) := by
  rw [takeKey, h]

theorem takeKey_of_none (h : m.lookup p.1 = none) : takeKey u now m p =
    if u then m else m.insert p.1 ((Bucket.full p.2 now).take now) := by
  rw [takeKey, h]

theorem lookup_takeKey_self : (takeKey u now m (k, B)).lookup k =
    if (m.lookup k).isSome || !u then some ((Bucket.orFull (m.lookup k) B now).take now)
    else none := by
  cases hm : m.lookup k with
  | some b => rw [takeKey_of_some hm]; simp
  | none =>
    rw [takeKey_of_none (p := (k, B)) hm]
    cases u <;> simp [hm]

theorem lookup_takeKey_ne (h : k ≠ p.1) : (takeKey u now m p).lookup k = m.lookup k := by
  cases hm : m.lookup p.1 with
  | some b => rw [takeKey_of_some hm, AList.lookup_insert_ne h]
  | none =>
    rw [takeKey_of_none hm]
    split
    · rfl
    · exact AList.lookup_insert_ne h

theorem lookup_foldl_takeKey_of_notMem (h : k ∉ keys.map Prod.fst) :
    (keys.foldl (takeKey u now) m).lookup k = m.lookup k := by
  induction keys generalizing m with
  | nil => rfl
  | cons p keys ih =>
    rw [List.map_cons, List.mem_cons, not_or] at h
    rw [List.foldl_cons, ih h.2, lookup_takeKey_ne h.1]

/-- No other round of the loop touches the bucket of `k`. -/
theorem lookup_foldl_takeKey_of_mem (hnd : (keys.map Prod.fst).Nodup) (h : (k, B) ∈ keys) :
    (keys.foldl (takeKey u now) m).lookup k = (takeKey u now m (k, B)).lookup k := by
  induction keys generalizing m with
  | nil => cases h
  | cons p keys ih =>
    rw [List.map_cons, List.nodup_cons] at hnd
    rw [List.foldl_cons]
    rcases List.mem_cons.mp h with rfl | h
    · exact lookup_foldl_takeKey_of_notMem hnd.1
    · have hne : k ≠ p.1 := fun hk => hnd.1 (hk ▸ List.mem_map_of_mem (f := Prod.fst) h)
      rw [ih hnd.2 h, lookup_takeKey_self, lookup_takeKey_self, lookup_takeKey_ne hne]

/-- Whether a request for `k` is charged to the bucket of `k` itself. -/
def owns (l : Limiter) (d : Demand) (k : Key) : Bool :=
  (l.buckets.lookup k).isSome || !l.useOverflow d

theorem lookup_takeKeys_of_mem (h : (k, B) ∈ d.keys) : (l.takeKeys d now).lookup k =
    if l.owns d k then some ((Bucket.orFull (l.buckets.lookup k) B now).take now) else none := by
  rw [takeKeys, lookup_foldl_takeKey_of_mem d.keys_nodup h, lookup_takeKey_self]
  rfl

theorem lookup_takeKeys_of_notMem (h : k ∉ d.keys.map Prod.fst) :
    (l.takeKeys d now).lookup k = l.buckets.lookup k :=
  lookup_foldl_takeKey_of_notMem h

theorem lookup_takeOverflow_self (h : l.useOverflow d = true) :
    (l.takeOverflow d now).lookup d.overflow.1 =
      some ((Bucket.orFull (l.overflow.lookup d.overflow.1) d.overflow.2 now).take now) := by
  simp only [takeOverflow, h, if_true]
  exact AList.lookup_insert _

theorem lookup_takeOverflow_ne (h : o ≠ d.overflow.1) :
    (l.takeOverflow d now).lookup o = l.overflow.lookup o := by
  change (if l.useOverflow d then l.overflow.insert d.overflow.1 _ else _).lookup o = _
  split
  · exact AList.lookup_insert_ne h
  · rfl

theorem takeOverflow_of_false (h : l.useOverflow d = false) :
    l.takeOverflow d now = l.overflow := by
  simp [takeOverflow, h]

/-- An admitted request found a token in every keyed bucket it is charged to. -/
theorem admits_of_admitted (hadm : l.admitted d now extra = true) (h : (k, B) ∈ d.keys)
    (hown : l.owns d k = true) : (Bucket.orFull (l.buckets.lookup k) B now).admits now = true := by
  simp only [admitted, Bool.and_eq_true, List.all_eq_true] at hadm
  have hk := hadm.1.1 _ h
  cases hl : l.buckets.lookup k with
  | some b => simpa [hl] using hk
  | none =>
    have hu : l.useOverflow d = false := by simpa [owns, hl] using hown
    simpa [hl, hu] using hk

/-- An admitted request found a token in the overflow bucket if it is charged to it. -/
theorem overflow_admits_of_admitted (hadm : l.admitted d now extra = true)
    (hu : l.useOverflow d = true) :
    (Bucket.orFull (l.overflow.lookup d.overflow.1) d.overflow.2 now).admits now = true := by
  simp only [admitted, Bool.and_eq_true, hu, Bool.not_true, Bool.false_or] at hadm
  cases hl : l.overflow.lookup d.overflow.1 with
  | some b => simpa [hl] using hadm.1.2
  | none => exact Bucket.admits_full

theorem admitWith_of_true {now : Instant} (h : l.admitted d (l.elapsed now) extra = true) :
    l.admitWith d now extra = (true, { l with
      buckets := l.takeKeys d (l.elapsed now), overflow := l.takeOverflow d (l.elapsed now) }) :=
  if_pos h

theorem admitWith_of_false {now : Instant} (h : l.admitted d (l.elapsed now) extra = false) :
    l.admitWith d now extra = (false, l) :=
  if_neg (by simp [h])

theorem start_admitWith {now : Instant} : (l.admitWith d now extra).2.start = l.start := by
  cases h : l.admitted d (l.elapsed now) extra with
  | true => rw [admitWith_of_true h]
  | false => rw [admitWith_of_false h]

/-! ## The bound on the map -/

theorem length_takeKey : (takeKey u now m p).keys.length =
    m.keys.length + if p.1 ∈ m ∨ u = true then 0 else 1 := by
  cases hm : m.lookup p.1 with
  | some b =>
    have hmem : p.1 ∈ m := AList.lookup_isSome.mp (by rw [hm]; rfl)
    rw [takeKey_of_some hm, AList.length_keys_insert, if_pos hmem, if_pos (.inl hmem)]
  | none =>
    have hmem : p.1 ∉ m := AList.lookup_eq_none.mp hm
    rw [takeKey_of_none hm]
    cases u with
    | true => simp
    | false =>
      rw [if_neg Bool.false_ne_true, AList.length_keys_insert, if_neg hmem, if_neg (by simp [hmem])]

theorem mem_takeKey_ne (h : k ≠ p.1) : k ∈ takeKey u now m p ↔ k ∈ m := by
  rw [← AList.lookup_isSome, lookup_takeKey_ne h, AList.lookup_isSome]

theorem length_foldl_takeKey (hnd : (keys.map Prod.fst).Nodup) :
    (keys.foldl (takeKey u now) m).keys.length =
      m.keys.length + if u = true then 0 else keys.countP fun (key, _) => key ∉ m := by
  induction keys generalizing m with
  | nil => simp
  | cons p keys ih =>
    rw [List.map_cons, List.nodup_cons] at hnd
    have hcount : (keys.countP fun (key, _) => key ∉ takeKey u now m p) =
        keys.countP fun (key, _) => key ∉ m := by
      refine List.countP_congr fun q hq => ?_
      have hne : q.1 ≠ p.1 := fun h => hnd.1 (h ▸ List.mem_map_of_mem hq)
      simp [mem_takeKey_ne hne]
    rw [List.foldl_cons, ih hnd.2, hcount, length_takeKey, List.countP_cons]
    by_cases hu : u = true
    · simp [hu]
    · by_cases hp : p.1 ∈ m
      · simp [hu, hp]
      · simp [hu, hp]
        omega

/-- Buckets are created only while all the missing ones fit. -/
theorem length_takeKeys_le (h : l.buckets.keys.length ≤ maxBuckets) :
    (l.takeKeys d now).keys.length ≤ maxBuckets := by
  rw [takeKeys, length_foldl_takeKey d.keys_nodup]
  by_cases hu : l.useOverflow d = true
  · simpa [hu] using h
  · have hmiss : ¬(0 < l.missing d ∧ maxBuckets < l.buckets.keys.length + l.missing d) := by
      simpa [useOverflow] using hu
    change l.buckets.keys.length + (if l.useOverflow d = true then 0 else l.missing d) ≤ maxBuckets
    rw [if_neg hu]
    omega

/-! ## Sweeps -/

theorem lookup_sweep (now : Instant) : (l.sweep now).buckets.lookup k =
    (l.buckets.lookup k).filter fun bucket => !bucket.isFull (l.elapsed now) :=
  AList.lookup_retain _ _ _

theorem overflow_lookup_sweep (now : Instant) (o : Overflow) : (l.sweep now).overflow.lookup o =
    (l.overflow.lookup o).filter fun bucket => !bucket.isFull (l.elapsed now) :=
  AList.lookup_retain _ _ _

theorem length_sweep_le (now : Instant) :
    (l.sweep now).buckets.keys.length ≤ l.buckets.keys.length :=
  AList.length_keys_retain_le _ _

end Limiter

end Kohaku.Limits
