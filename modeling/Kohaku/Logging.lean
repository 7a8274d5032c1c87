import Kohaku.Limits.Permits
import Kohaku.Limits.Rate
import Kohaku.Text

/-!
# Rejection counters

`logging::Counters`: one atomic counter per reason. `take` swaps them to zero one after the other,
so any number of increments, and other calls of `take`, may fall between two of its swaps. Still
every rejection is logged once or is in its counter, as long as no counter wraps at 2^64
(`rejections_conserved`).
-/

namespace Kohaku

open Limits

/-- Why a request was rejected. -/
inductive Reason
  | unknownHost
  | crossSite
  | adminIsolation
  | deadline
  | bodyTooLarge
  | multipart
  | rateLimited (c : RateClass)
  | busy (bound : Bound)
  | acceptError
  deriving DecidableEq, Repr

/-- `RateClass::ALL`. -/
def Limits.RateClass.all : List RateClass := [.read, .login, .reset]

/-- Name in the per-minute rejection counters. -/
def Limits.RateClass.name : RateClass → Str
  | .read => "read".toList
  | .login => "login".toList
  | .reset => "reset".toList

namespace Reason

/-- Every reason, in the order they are logged. -/
def all : List Reason :=
  [unknownHost, crossSite, adminIsolation, deadline, bodyTooLarge, multipart] ++
    RateClass.all.map rateLimited ++ Bound.all.map busy ++ [acceptError]

/-- `Reason::name`, as it is logged. -/
def name : Reason → Str
  | unknownHost => "unknown host (421)".toList
  | crossSite => "cross-site request (403)".toList
  | adminIsolation => "admin resource isolation (403)".toList
  | deadline => "request deadline exceeded (408)".toList
  | bodyTooLarge => "body over its cap (413)".toList
  | multipart => "multipart not accepted (415)".toList
  | rateLimited c => "rate limit ".toList ++ c.name ++ " (429)".toList
  | busy bound => "concurrency bound ".toList ++ bound.name ++ " full (503)".toList
  | acceptError => "connection accept error".toList

theorem mem_all (reason : Reason) : reason ∈ all := by
  cases reason with
  | rateLimited c => cases c <;> decide
  | busy bound => cases bound <;> decide
  | unknownHost | crossSite | adminIsolation | deadline | bodyTooLarge | multipart | acceptError =>
    decide

theorem nodup_all : all.Nodup := by decide

/-- No two reasons are logged under one name. -/
theorem name_injective {a b : Reason} (h : a.name = b.name) : a = b := by
  have hall : ∀ a ∈ all, ∀ b ∈ all, a.name = b.name → a = b := by decide
  exact hall a (mem_all a) b (mem_all b) h

end Reason

/-! ## The counters -/

/-- One `AtomicU64` per reason. -/
structure Counters where
  reasons : List Reason
  counts : List UInt64

namespace Counters

/-- `Counters::default`. -/
def new : Counters := ⟨Reason.all, Reason.all.map fun _ => 0⟩

/-- `fetch_add(1)`, which wraps; `none` when no counter is there, which would be a panic. -/
def increment (c : Counters) (reason : Reason) : Option Counters := do
  let index ← c.reasons.findIdx? (· = reason)
  return { c with counts := c.counts.modify index (· + 1) }

/-- `AtomicU64::swap(0)` of one counter: its reason and the count it had. -/
def swap (c : Counters) (index : Nat) : Option ((Reason × UInt64) × Counters) := do
  let reason ← c.reasons[index]?
  let count ← c.counts[index]?
  return ((reason, count), { c with counts := c.counts.set index 0 })

/-- The count of a reason. -/
def count (c : Counters) (reason : Reason) : Nat := (c.counts.getD (c.reasons.idxOf reason) 0).toNat

/-- The greatest count: the next increment wraps. -/
def full : Nat := 2 ^ 64 - 1

/-- There is a counter for each reason, and one reason for each counter. -/
structure Wf (c : Counters) : Prop where
  reasons : c.reasons = Reason.all
  length : c.counts.length = c.reasons.length

theorem wf_new : new.Wf := ⟨rfl, List.length_map _⟩

variable {c c' : Counters} {reason r : Reason} {index : Nat} {entry : Reason × UInt64}

theorem Wf.idxOf_lt (h : c.Wf) (reason : Reason) : c.reasons.idxOf reason < c.counts.length := by
  rw [h.length, h.reasons]
  exact List.idxOf_lt_length_of_mem (Reason.mem_all reason)

theorem Wf.idxOf_inj (h : c.Wf) : c.reasons.idxOf r = c.reasons.idxOf reason ↔ r = reason := by
  rw [h.reasons]
  exact List.idxOf_inj (Reason.mem_all r)

/-- Every reason has a counter. -/
theorem Wf.increment_eq (h : c.Wf) (reason : Reason) : c.increment reason =
    some { c with counts := c.counts.modify (c.reasons.idxOf reason) (· + 1) } := by
  have hmem : reason ∈ c.reasons := h.reasons ▸ Reason.mem_all reason
  have hfind : c.reasons.findIdx? (· = reason) = some (c.reasons.idxOf reason) :=
    List.findIdx?_eq_some_iff_findIdx_eq.mpr ⟨List.idxOf_lt_length_of_mem hmem, rfl⟩
  simp [increment, hfind]

theorem toNat_add_one (n : UInt64) :
    (n + 1).toNat + (if n.toNat = full then 2 ^ 64 else 0) = n.toNat + 1 := by
  have hlt := n.toNat_lt
  rw [UInt64.toNat_add, UInt64.toNat_one, full]
  split
  · omega
  · omega

/-- A counter is increased by one or wraps, and no other one changes. -/
theorem Wf.of_increment (h : c.Wf) (hinc : c.increment reason = some c') :
    c'.Wf ∧ ∀ r, c'.count r + (if r = reason ∧ c.count r = full then 2 ^ 64 else 0) =
      c.count r + if r = reason then 1 else 0 := by
  rw [h.increment_eq] at hinc
  cases hinc
  refine ⟨⟨h.reasons, by rw [List.length_modify]; exact h.length⟩, fun r => ?_⟩
  have hlt := h.idxOf_lt r
  simp only [count, List.getD_eq_getElem?_getD, List.getElem?_modify]
  by_cases hr : r = reason
  · subst hr
    simpa [hlt] using toNat_add_one (c.counts.get ⟨c.reasons.idxOf r, hlt⟩)
  · have hne : c.reasons.idxOf reason ≠ c.reasons.idxOf r := fun heq => hr (h.idxOf_inj.mp heq.symm)
    simp [hne, hr]

/-- What is swapped out of a counter is gone from it, and no other one changes. -/
theorem Wf.of_swap (h : c.Wf) (hswap : c.swap index = some (entry, c')) :
    c'.Wf ∧ ∀ r, c'.count r + (if r = entry.1 then entry.2.toNat else 0) = c.count r := by
  simp only [swap, Option.bind_eq_bind, Option.bind_eq_some_iff, Option.pure_def, Option.some.injEq,
    Prod.mk.injEq] at hswap
  obtain ⟨reason, hreason, count, hcount, rfl, rfl⟩ := hswap
  obtain ⟨hlt, hget⟩ := List.getElem?_eq_some_iff.mp hreason
  have hidx : c.reasons.idxOf reason = index := by
    have hnodup : c.reasons.Nodup := h.reasons ▸ Reason.nodup_all
    rw [← hget, hnodup.idxOf_getElem]
  refine ⟨⟨h.reasons, by rw [List.length_set]; exact h.length⟩, fun r => ?_⟩
  simp only [Counters.count, List.getD_eq_getElem?_getD, List.getElem?_set]
  by_cases hr : r = reason
  · subst hr
    rw [hidx, if_pos rfl, if_pos rfl, hcount]
    simp [h.length ▸ hlt]
  · rw [if_neg (fun heq => hr (h.idxOf_inj.mp (hidx.trans heq).symm)), if_neg hr, Nat.add_zero]

end Counters

/-! ## Calls of `take` beside increments -/

namespace Counting

/-- A call of `take`: what it has swapped out so far. -/
abbrev Taken := List (Reason × UInt64)

/-- What `flush` logs of a call: one line per non-zero count. -/
def lines (taken : Taken) : Taken := taken.filter fun entry => 0 < entry.2

/-- The text of a line. -/
def lineText (entry : Reason × UInt64) : Str :=
  "rejected requests: ".toList ++ (entry.1.name ++ ':' :: ' ' :: Nat.toDigits 10 entry.2.toNat)

theorem append_colon_inj {a b x y : Str} (ha : ':' ∉ a) (hb : ':' ∉ b)
    (h : a ++ ':' :: x = b ++ ':' :: y) : a = b ∧ x = y := by
  have hsplit := splitOnce_eq_some.mpr ⟨h, hb⟩
  rw [splitOnce_eq_some.mpr ⟨rfl, ha⟩] at hsplit
  exact Prod.mk.injEq .. ▸ Option.some.inj hsplit

/-- A line tells its reason and its count. -/
theorem lineText_injective {a b : Reason × UInt64} (h : lineText a = lineText b) : a = b := by
  have hcolon : ∀ reason ∈ Reason.all, ':' ∉ reason.name := by decide
  obtain ⟨hname, hrest⟩ := append_colon_inj (hcolon a.1 (Reason.mem_all _))
    (hcolon b.1 (Reason.mem_all _)) (List.append_cancel_left h)
  have hcount := congrArg (Nat.ofDigitChars 10 · 0) (List.cons.inj hrest).2
  simp only [Nat.ofDigitChars_ten_toDigits] at hcount
  exact Prod.ext (Reason.name_injective hname) (UInt64.toNat_inj.mp hcount)

/-- The counters and all calls of `take` so far. -/
structure State where
  counters : Counters
  calls : List Taken

/-- Nothing is counted and nothing taken. -/
def State.new : State := ⟨.new, []⟩

/-- What happens next. -/
inductive Label
  /-- A response is counted. -/
  | increment (reason : Reason)
  | take
  /-- A call of `take` goes on to its next counter. -/
  | swap (i : Nat)

/-- A rejection is counted, a `take` begins, or one that has begun swaps its next counter. -/
def step (s : State) : Label → Option State
  | .increment reason => do
    let counters ← s.counters.increment reason
    return { s with counters }
  | .take => some { s with calls := s.calls ++ [[]] }
  | .swap i => do
    let taken ← s.calls[i]?
    let (entry, counters) ← s.counters.swap taken.length
    return ⟨counters, s.calls.set i (taken ++ [entry])⟩

/-- The count of a reason in some entries. -/
def total (reason : Reason) (entries : Taken) : Nat :=
  (entries.map fun entry => if reason = entry.1 then entry.2.toNat else 0).sum

theorem total_append (reason : Reason) (xs ys : Taken) :
    total reason (xs ++ ys) = total reason xs + total reason ys := by
  rw [total, List.map_append, List.sum_append]
  rfl

/-- Lines that are not logged count nothing. -/
theorem total_lines (reason : Reason) (taken : Taken) :
    total reason (lines taken) = total reason taken := by
  induction taken with
  | nil => rfl
  | cons entry taken ih =>
    by_cases hpos : 0 < entry.2
    · rw [lines, List.filter_cons_of_pos (by simpa using hpos)]
      exact congrArg (_ + ·) ih
    · rw [lines, List.filter_cons_of_neg (by simpa using hpos)]
      have hzero : entry.2.toNat = 0 := by
        rw [UInt64.lt_iff_toNat_lt] at hpos
        exact Nat.eq_zero_of_not_pos hpos
      change total reason (lines taken) = (if reason = entry.1 then entry.2.toNat else 0) +
        total reason taken
      rw [ih, hzero, ite_self, Nat.zero_add]

/-- The rejections for a reason in a history. -/
def rejections (reason : Reason) (h : List (Lts.Step State Label)) : Nat :=
  h.countP fun e =>
    match e.label with
    | .increment r => r = reason
    | _ => false

/-- How often the counter of a reason wrapped in a history: each time 2^64 rejections are lost. -/
def wraps (reason : Reason) (h : List (Lts.Step State Label)) : Nat :=
  h.countP fun e =>
    match e.label with
    | .increment r => r = reason && e.pre.counters.count reason = Counters.full
    | _ => false

/-- The invariant of a state and the history that led to it. -/
structure Inv (h : List (Lts.Step State Label)) (s : State) : Prop where
  wf : s.counters.Wf
  conserved : ∀ reason, s.counters.count reason + (s.calls.map (total reason)).sum + 2 ^ 64 *
    wraps reason h = rejections reason h

theorem inv_new : Inv [] .new := by
  refine ⟨Counters.wf_new, fun reason => ?_⟩
  have hzero : ∀ reason ∈ Reason.all, Counters.new.count reason = 0 := by decide
  exact hzero reason (Reason.mem_all reason)

theorem inv_step {h : List (Lts.Step State Label)} {s s' : State} {l : Label} (H : Inv h s)
    (hs : step s l = some s') : Inv (h ++ [⟨s, l, s'⟩]) s' := by
  cases l with
  | increment reason =>
    simp only [step, Option.bind_eq_bind, Option.bind_eq_some_iff, Option.pure_def,
      Option.some.injEq] at hs
    obtain ⟨counters, hinc, rfl⟩ := hs
    obtain ⟨hwf, hcount⟩ := H.wf.of_increment hinc
    refine ⟨hwf, fun r => ?_⟩
    have hsum := H.conserved r
    have hr := hcount r
    simp only [rejections, wraps, List.countP_append, List.countP_singleton, decide_eq_true_eq,
      Bool.and_eq_true] at hsum ⊢
    simp only [eq_comm (a := reason)]
    by_cases heq : r = reason
    · subst heq
      by_cases hfull : s.counters.count r = Counters.full
      · simp only [hfull, and_self, if_true, Nat.mul_add, Nat.mul_one] at hsum hr ⊢
        linarith
      · simp only [hfull, and_false, if_true, if_false] at hsum hr ⊢
        omega
    · simp only [heq, false_and, if_false] at hsum hr ⊢
      omega
  | take =>
    cases hs
    refine ⟨H.wf, fun r => ?_⟩
    have hsum := H.conserved r
    simp only [rejections, wraps, List.countP_append, List.countP_singleton, List.map_append,
      List.map_singleton, List.sum_append, List.sum_singleton] at hsum ⊢
    simpa [total] using hsum
  | swap i =>
    simp only [step, Option.bind_eq_bind, Option.bind_eq_some_iff, Option.pure_def,
      Option.some.injEq] at hs
    obtain ⟨taken, htaken, ⟨entry, counters⟩, hswap, rfl⟩ := hs
    obtain ⟨hwf, hcount⟩ := H.wf.of_swap hswap
    refine ⟨hwf, fun r => ?_⟩
    have hsum := H.conserved r
    have hset := Pool.sum_map_set htaken (total r) (taken ++ [entry])
    have hentry : total r (taken ++ [entry]) = total r taken + if r = entry.1 then entry.2.toNat
        else 0 := by
      rw [total_append]
      exact congrArg (_ + ·) (List.sum_singleton)
    have hr := hcount r
    simp only [rejections, wraps, List.countP_append, List.countP_singleton] at hsum ⊢
    simp only [Bool.false_eq_true, if_false, Nat.add_zero]
    omega

theorem inv_of_exec {h : List (Lts.Step State Label)} {s : State} (H : Lts.Exec step .new h s) :
    Inv h s :=
  H.rec_snoc Inv inv_new fun _ hinv hs => inv_step hinv hs

/-- In every interleaving of increments with any number of calls of `take`: each rejection is in its
counter or in the lines of one call, once, but for the 2^64 that are lost each time a counter wraps;
so all of them are, as long as fewer than 2^64 were made for the reason. The next one finds its
counter. -/
theorem rejections_conserved {h : List (Lts.Step State Label)} {s : State}
    (H : Lts.Exec step .new h s) (reason : Reason) :
    s.counters.count reason + (s.calls.map fun taken => total reason (lines taken)).sum +
      2 ^ 64 * wraps reason h = rejections reason h ∧
    (rejections reason h < 2 ^ 64 → s.counters.count reason +
      (s.calls.map fun taken => total reason (lines taken)).sum = rejections reason h) ∧
    (step s (.increment reason)).isSome = true := by
  have hinv := inv_of_exec H
  have hsum : s.counters.count reason + (s.calls.map fun taken => total reason (lines taken)).sum +
      2 ^ 64 * wraps reason h = rejections reason h := by
    simp only [total_lines]
    exact hinv.conserved reason
  refine ⟨hsum, ?_, ?_⟩
  · intro hlt
    omega
  · rw [step, hinv.wf.increment_eq]
    rfl

/-- A rejection is counted between two swaps of a call, for a reason whose counter the call has
passed. -/
theorem rejections_conserved_between_swaps :
    (Lts.last State.new (Lts.history step .new
      [.increment .crossSite, .take, .swap 0, .increment .unknownHost,
      .swap 0])).calls.map lines = [[(.crossSite, 1)]] ∧
    (Lts.last State.new (Lts.history step .new
      [.increment .crossSite, .take, .swap 0, .increment .unknownHost,
      .swap 0])).counters.count .unknownHost + 0 = 1 := by
  refine ⟨by decide, ?_⟩
  exact (rejections_conserved (.of_history (by decide)) .unknownHost).2.1 (by decide)

end Counting

end Kohaku
