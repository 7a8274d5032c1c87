import Kohaku.Limits.Rate
import Kohaku.Lts.Mealy

/-!
# The public mail budget

`limits::mail_budget`: the instance-wide bucket that is checked and taken with the keyed buckets,
under the limiter's lock. `Metered` is the limiter together with that bucket as a transition system:
requests through `admit` and through `admit_with` with the instance bucket, and sweeps, at
nondecreasing times.
-/

namespace Kohaku.Limits

open TokenBucket

/-- `HOUR`. -/
def hour : Duration := fromSecs 3600

/-- Mails per hour one source (IPv4 /32 or IPv6 /48) may cause. -/
def perSourcePerHour : Nat := 10

/-- The budget of a network. -/
def perSource : Budget := .per perSourcePerHour hour (by decide)

/-- Mails per hour one address may be sent through a public form. -/
def perAddressPerHour : Nat := 3

/-- The budget of an address. -/
def perAddress : Budget := .per perAddressPerHour hour (by decide)

/-- The budget the program demands a key with. -/
def Key.budget : Key → Budget
  | .ofClass c (.v6Slash48 _) => c.aggregate
  | .ofClass c _ => c.budget
  | .mailSource _ => perSource
  | .mailAddress _ => perAddress

/-- The one instance-wide bucket; the buckets per source are in the limiter. -/
structure MailBudget where
  instanceBucket : Bucket
  deriving DecidableEq

namespace MailBudget

/-- A `SingleBucket` is full at first. -/
def ofBudget (budget : Budget) : MailBudget := ⟨.full budget 0⟩

/-- `perHour` is `KOHAKU_PUBLIC_MAIL_PER_HOUR`. -/
def new (perHour : Nat) (h : 0 < perHour ∧ perHour ≤ hour) : MailBudget :=
  ofBudget (.per perHour hour h)

/-- `admit_with` with the instance bucket as the extra one. -/
def admitWith (m : MailBudget) (l : Limiter) (d : Demand) (now : Instant) :
    Bool × Limiter × MailBudget :=
  match l.admitWith d now fun t => m.instanceBucket.admits t with
  | (true, l') => (true, l', ⟨m.instanceBucket.take (l.elapsed now)⟩)
  | (false, l') => (false, l', m)

/-- Takes one token from the source's bucket and one from the instance-wide bucket, or none when
either is empty. -/
def take (m : MailBudget) (l : Limiter) (address : IpAddr) (now : Instant) :
    Bool × Limiter × MailBudget :=
  m.admitWith l (.mailSource address perSource) now

end MailBudget

/-! ## Runs -/

/-- A request to the limiter: through `admit_with` with the instance bucket if `shared`, else
through `admit`. -/
structure Ask where
  demand : Demand
  now : Instant
  shared : Bool
  deriving DecidableEq

/-- What happens to the limiter and the mail budget. -/
inductive Use
  | ask (a : Ask)
  | sweep (now : Instant)

namespace Use

/-- The clock value of a use. -/
def now : Use → Instant
  | ask a => a.now
  | sweep now => now

/-- What is asked for. -/
def ask? : Use → Option Ask
  | ask a => some a
  | sweep _ => none

end Use

/-- The limiter, the mail budget and the time of the last call. -/
structure Metered where
  limiter : Limiter
  mail : MailBudget
  clock : Instant

namespace Metered

/-- A limiter and a mail budget that nothing has been taken from. -/
def new (start : Instant) (mail : MailBudget) : Metered := ⟨.new start, mail, start⟩

/-- The answer to a request and what it leaves. -/
def request (s : Metered) (a : Ask) : Bool × Limiter × MailBudget :=
  if a.shared then s.mail.admitWith s.limiter a.demand a.now
  else
    let (answer, l) := s.limiter.admitDemand a.demand a.now
    (answer, l, s.mail)

/-- A use, unless the clock runs backwards. -/
def step (s : Metered) (u : Use) : Option Metered :=
  if s.clock ≤ u.now then
    match u with
    | .ask a => some ⟨(s.request a).2.1, (s.request a).2.2, a.now⟩
    | .sweep now => some ⟨s.limiter.sweep now, s.mail, now⟩
  else none

/-- A use with the state before and after it. -/
abbrev Event := Lts.Step Metered Use

/-- What is asked for in it. -/
def Event.ask? (e : Event) : Option Ask := e.label.ask?

/-- What a request of the step is answered. -/
def Event.answer (e : Event) : Bool := e.label.ask?.any fun a => (e.pre.request a).1

/-- The requests of a history. -/
def asks (h : List Event) : List Ask := Lts.inputs Event.ask? h

/-- What they were answered. -/
def answers (h : List Event) : List Bool := Lts.answers Event.ask? Event.answer h

/-! ## What a request does -/

variable {s s' : Metered} {a : Ask} {now : Instant}

/-- What the extra bucket answers. -/
def extra (s : Metered) (a : Ask) : Duration → Bool :=
  fun t => !a.shared || s.mail.instanceBucket.admits t

/-- Every bucket the request needs holds a token. -/
def admitted (s : Metered) (a : Ask) : Bool :=
  s.limiter.admitted a.demand (s.limiter.elapsed a.now) (s.extra a)

theorem request_of_true (h : s.admitted a = true) :
    s.request a = (true,
      { s.limiter with
        buckets := s.limiter.takeKeys a.demand (s.limiter.elapsed a.now)
        overflow := s.limiter.takeOverflow a.demand (s.limiter.elapsed a.now) },
      if a.shared then ⟨s.mail.instanceBucket.take (s.limiter.elapsed a.now)⟩ else s.mail) := by
  unfold admitted extra at h
  cases hs : a.shared with
  | true =>
    simp only [hs, Bool.not_true, Bool.false_or] at h
    simp only [request, hs, MailBudget.admitWith, if_true]
    rw [Limiter.admitWith_of_true h]
  | false =>
    simp only [hs, Bool.not_false, Bool.true_or] at h
    simp only [request, hs, Bool.false_eq_true, if_false]
    rw [Limiter.admitDemand, Limiter.admitWith_of_true h]

/-- A refused request changes no bucket. -/
theorem request_of_false (h : s.admitted a = false) : s.request a = (false, s.limiter, s.mail) := by
  unfold admitted extra at h
  cases hs : a.shared with
  | true =>
    simp only [hs, Bool.not_true, Bool.false_or] at h
    simp only [request, hs, MailBudget.admitWith, if_true]
    rw [Limiter.admitWith_of_false h]
  | false =>
    simp only [hs, Bool.not_false, Bool.true_or] at h
    simp only [request, hs, Bool.false_eq_true, if_false]
    rw [Limiter.admitDemand, Limiter.admitWith_of_false h]

theorem request_fst : (s.request a).1 = s.admitted a := by
  cases h : s.admitted a with
  | true => rw [request_of_true h]
  | false => rw [request_of_false h]

/-- The limiter after a request, by what the extra bucket answers. -/
theorem limiter_request : (s.request a).2.1 = (s.limiter.admitWith a.demand a.now fun _ =>
    s.extra a (s.limiter.elapsed a.now)).2 := by
  have hadm : (s.limiter.admitted a.demand (s.limiter.elapsed a.now) fun _ =>
    s.extra a (s.limiter.elapsed a.now)) = s.admitted a := rfl
  cases h : s.admitted a with
  | true => rw [request_of_true h, Limiter.admitWith_of_true (hadm.trans h)]
  | false => rw [request_of_false h, Limiter.admitWith_of_false (hadm.trans h)]

theorem step_ask (h : s.step (.ask a) = some s') :
    s.clock ≤ a.now ∧ s' = ⟨(s.request a).2.1, (s.request a).2.2, a.now⟩ := by
  unfold step at h
  split at h
  · exact ⟨‹_›, (Option.some.inj h).symm⟩
  · cases h

theorem step_sweep (h : s.step (.sweep now) = some s') :
    s.clock ≤ now ∧ s' = ⟨s.limiter.sweep now, s.mail, now⟩ := by
  unfold step at h
  split at h
  · exact ⟨‹_›, (Option.some.inj h).symm⟩
  · cases h

end Metered

end Kohaku.Limits
