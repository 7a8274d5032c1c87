import Kohaku.Limits.Calls
import Kohaku.Limits.Checked

/-!
# The public mail budget over every run

In a run of the calls the program makes, the arithmetic of the limiter never leaves its range, the
takes granted in a window are bounded by the instance bucket, and a refused take changes no bucket.
-/

namespace Kohaku.Limits

open TokenBucket

/-- The call of `MailBudget::take`. -/
def Use.take (address : IpAddr) (now : Instant) : Use :=
  .ask ⟨.mailSource address perSource, now, true⟩

/-- The calls the program makes: one per request of a rate-limit class, one per address mailed, the
takes of the mail budget, and sweeps. -/
def Use.made : Use → Bool
  | .ask ⟨.ofClass _ _, _, shared⟩ => !shared
  | .ask ⟨.mailAddress _ budget, _, shared⟩ => !shared && budget = perAddress
  | .ask ⟨.mailSource _ budget, _, shared⟩ => shared && budget = perSource
  | .sweep _ => true

/-- The budget the program names for an overflow bucket. -/
def Overflow.budget : Overflow → Budget
  | .ofClass c => c.budget
  | .mailSource => perSource
  | .mailAddress => perAddress

namespace Metered

/-- The time since the limiter was made. -/
def elapsed (s : Metered) : Duration := s.limiter.elapsed s.clock

namespace Event

/-- The clock value of the step. -/
def now (e : Event) : Instant := e.label.now

/-- The step asks for a public mail. -/
def isTake (e : Event) : Bool :=
  match e.label with
  | .ask ⟨.mailSource _ budget, _, true⟩ => budget = perSource
  | _ => false

/-- A take that is granted between `t` and `t + w`. -/
def grantsWithin (e : Event) (t : Instant) (w : Duration) : Bool :=
  isTake e && answer e && t ≤ e.now && e.now ≤ t + w

/-- A request is charged to the instance bucket. -/
def chargesInstance (e : Event) : Bool := e.label.ask?.any fun a => a.shared && (e.pre.request a).1

/-- The step as one of the limiter alone. -/
def toCall (e : Event) : Limits.Event where
  pre := ⟨e.pre.limiter, e.pre.clock⟩
  label := match e.label with
    | .ask a => .request a.demand a.now (e.pre.extra a (e.pre.limiter.elapsed a.now))
    | .sweep now => .sweep now
  post := ⟨e.post.limiter, e.post.clock⟩

end Event

variable {s s' t : Metered} {e : Event} {h : List Event} {u : Use} {a : Ask} {k : Key}
  {o : Overflow} {S : Budget} {start : Instant}

/-- The limiter of a step makes the step of the limiter alone. -/
theorem Event.step_toCall (hs : e.pre.step e.label = some e.post) :
    (Event.toCall e).pre.step (Event.toCall e).label = some (Event.toCall e).post := by
  obtain ⟨s, u, s'⟩ := e
  rw [Clocked.step_eq_some]
  cases u with
  | sweep now =>
    replace hs : s.step (.sweep now) = some s' := hs
    obtain ⟨hle, rfl⟩ := step_sweep hs
    exact ⟨hle, rfl⟩
  | ask a =>
    replace hs : s.step (.ask a) = some s' := hs
    obtain ⟨hle, rfl⟩ := step_ask hs
    refine ⟨hle, ?_⟩
    change Clocked.mk (s.request a).2.1 a.now = _
    rw [limiter_request]
    rfl

theorem elapsed_le (hs : e.pre.step e.label = some e.post) : e.pre.elapsed ≤ e.post.elapsed :=
  Clocked.elapsed_le (Event.step_toCall hs)

theorem elapsed_post (hs : e.pre.step e.label = some e.post) :
    e.post.elapsed = e.pre.limiter.elapsed e.now := by
  refine (Clocked.elapsed_of_step (Event.step_toCall hs)).trans ?_
  obtain ⟨s, u, s'⟩ := e
  cases u <;> rfl

theorem start_eq (H : Lts.Exec step s h t) : t.limiter.start = s.limiter.start :=
  H.eq_of_forall (fun s => s.limiter.start) fun _ _ hs =>
    Clocked.start_of_step (Event.step_toCall hs)

theorem Event.demand_toCall :
    (Event.toCall e).label.demand? = e.label.ask?.map fun a => a.demand := by
  obtain ⟨s, u, s'⟩ := e
  cases u <;> rfl

/-! ## The instance bucket -/

/-- A step moves the instance bucket. -/
theorem Event.moves_instance (hs : e.pre.step e.label = some e.post) :
    Bucket.Moves S (some e.pre.mail.instanceBucket) e.post.elapsed (chargesInstance e)
      (some e.post.mail.instanceBucket) := by
  rw [elapsed_post hs]
  obtain ⟨s, u, s'⟩ := e
  cases u with
  | sweep now =>
    replace hs : s.step (.sweep now) = some s' := hs
    obtain ⟨-, rfl⟩ := step_sweep hs
    exact .idle
  | ask a =>
    replace hs : s.step (.ask a) = some s' := hs
    obtain ⟨-, rfl⟩ := step_ask hs
    simp only [chargesInstance, Use.ask?, Option.any_some, now, Use.now]
    cases hadm : s.admitted a with
    | false =>
      rw [request_of_false hadm, Bool.and_false]
      exact .idle
    | true =>
      rw [request_of_true hadm]
      cases hshared : a.shared with
      | false => exact .idle
      | true =>
        have hextra : s.extra a (s.limiter.elapsed a.now) = true := by
          simp only [admitted, Limiter.admitted, Bool.and_eq_true] at hadm
          exact hadm.2
        have hb : s.mail.instanceBucket.admits (s.limiter.elapsed a.now) = true := by
          simpa [extra, hshared] using hextra
        exact .charged hb

/-! ## The budgets of the program -/

/-- The program demands each key with one budget. -/
theorem budget_of_made (hmade : (Use.ask a).made = true) :
    (∀ k b, (k, b) ∈ a.demand.keys → b = k.budget) ∧
      a.demand.overflow.2 = a.demand.overflow.1.budget := by
  obtain ⟨d, now, shared⟩ := a
  cases d with
  | ofClass c address =>
    refine ⟨fun k b hb => ?_, rfl⟩
    cases address with
    | v4 bits =>
      cases List.mem_singleton.mp hb
      rfl
    | v6 bits =>
      rcases List.mem_cons.mp hb with hb | hb
      · cases hb
        rfl
      · cases List.mem_singleton.mp hb
        rfl
  | mailAddress key budget =>
    obtain ⟨-, rfl⟩ : shared = false ∧ budget = perAddress := by simpa [Use.made] using hmade
    refine ⟨fun k b hb => ?_, rfl⟩
    cases List.mem_singleton.mp hb
    rfl
  | mailSource address budget =>
    obtain ⟨-, rfl⟩ : shared = true ∧ budget = perSource := by simpa [Use.made] using hmade
    refine ⟨fun k b hb => ?_, rfl⟩
    cases List.mem_singleton.mp hb
    rfl

/-! ## All buckets stay within their tokens -/

/-- Every bucket is one of its budget, with its arrival time at most all its tokens ahead. -/
structure AllBounded (S : Budget) (s : Metered) : Prop where
  key : ∀ k, Bucket.Bounded k.budget s.elapsed (s.limiter.buckets.lookup k)
  overflow : ∀ o, Bucket.Bounded o.budget s.elapsed (s.limiter.overflow.lookup o)
  shared : Bucket.Bounded S s.elapsed (some s.mail.instanceBucket)

theorem AllBounded.new : AllBounded S (.new start (.ofBudget S)) where
  key _ := nofun
  overflow _ := nofun
  shared b hb := by
    cases hb
    exact ⟨rfl, Nat.zero_le _⟩

theorem Event.ask_of_demand {d : Demand} (hd : (Event.toCall e).label.demand? = some d) :
    ∃ a, e.label = .ask a ∧ a.demand = d := by
  rw [Event.demand_toCall] at hd
  cases hl : e.label with
  | ask a =>
    rw [hl] at hd
    exact ⟨a, rfl, Option.some.inj hd⟩
  | sweep =>
    rw [hl] at hd
    cases hd

theorem AllBounded.step (hI : AllBounded S e.pre) (hs : e.pre.step e.label = some e.post)
    (hmade : e.label.made = true) : AllBounded S e.post := by
  have hs' := Event.step_toCall hs
  have hle := elapsed_le hs
  refine ⟨fun k => ?_, fun o => ?_, (Event.moves_instance hs).bounded hI.shared hle⟩
  · refine (Limits.Event.moves hs' ?_).bounded (hI.key k) hle
    intro d hd b hb
    obtain ⟨a, hl, rfl⟩ := Event.ask_of_demand hd
    exact (budget_of_made (hl ▸ hmade)).1 k b hb
  · refine (Limits.Event.moves_overflow hs' ?_).bounded (hI.overflow o) hle
    rintro d hd rfl
    obtain ⟨a, hl, rfl⟩ := Event.ask_of_demand hd
    exact (budget_of_made (hl ▸ hmade)).2

theorem AllBounded.run (H : Lts.Exec Metered.step (.new start (.ofBudget S)) h t)
    (hmade : ∀ e ∈ h, e.label.made = true) : AllBounded S t := by
  refine H.stays (AllBounded S) .new ?_
  intro h₁ e h₂ hh _ hs hI
  exact hI.step hs (hmade e (by simp [hh]))

/-! ## Nothing panics -/

theorem fits_class (c : RateClass) : Checked.Fits c.budget ∧ Checked.Fits c.aggregate := by
  unfold Checked.Fits
  cases c <;> decide

theorem fits_mail : Checked.Fits perSource ∧ Checked.Fits perAddress := by
  unfold Checked.Fits
  decide

theorem fits_key : Checked.Fits k.budget := by
  cases k with
  | ofClass c network =>
    cases network with
    | v4 | v6Slash64 => exact (fits_class c).1
    | v6Slash48 => exact (fits_class c).2
  | mailSource => exact fits_mail.1
  | mailAddress => exact fits_mail.2

theorem fits_overflow : Checked.Fits o.budget := by
  cases o with
  | ofClass c => exact (fits_class c).1
  | mailSource => exact fits_mail.1
  | mailAddress => exact fits_mail.2

theorem small_of_bounded {B : Budget} {b : Bucket} {now : Duration} {o : Option Bucket}
    (hB : Checked.Fits B) (h : Bucket.Bounded B now o) (hb : o = some b) : Checked.Small now b := by
  obtain ⟨rfl, htat⟩ := h b hb
  exact ⟨hB, htat⟩

/-- A request the program makes does not panic. -/
theorem AllBounded.request_eq (hI : AllBounded S s) (hS : Checked.Fits S)
    (hmade : (Use.ask a).made = true) (hle : s.clock ≤ a.now)
    (hnow : Checked.InRange (s.limiter.elapsed a.now)) :
    Checked.request s a = some (s.request a) := by
  have hle : s.elapsed ≤ s.limiter.elapsed a.now := Nat.sub_le_sub_right hle _
  obtain ⟨hkeys, hover⟩ := budget_of_made hmade
  apply Checked.request_eq hnow
  · exact ⟨fun k b hb => small_of_bounded fits_key ((hI.key k).wait hle) hb,
      fun o b hb => small_of_bounded fits_overflow ((hI.overflow o).wait hle) hb⟩
  · refine ⟨fun p hp => ?_, hover ▸ fits_overflow⟩
    rw [hkeys p.1 p.2 hp]
    exact fits_key
  · exact small_of_bounded hS (hI.shared.wait hle) rfl

end Metered

/-! ## The mail budget -/

theorem per_hour_le {perHour : Nat} (h : 1 ≤ perHour ∧ perHour < 2 ^ 32) :
    0 < perHour ∧ perHour ≤ hour :=
  ⟨h.1, h.2.le.trans (by decide)⟩

variable {perHour : Nat} {start : Instant} {h : List Metered.Event} {t : Metered}

/-- A grant is charged to the instance bucket. -/
theorem Metered.Event.chargesInstance_of_take {e : Event} (htake : isTake e = true)
    (hans : answer e = true) : chargesInstance e = true := by
  unfold isTake at htake
  unfold answer at hans
  split at htake
  · rw [‹e.label = _›] at hans
    simpa [chargesInstance, ‹e.label = _›, Use.ask?] using hans
  · cases htake

/-- The takes granted in a window. -/
theorem granted_le {S : Budget} (H : Lts.Exec Metered.step (.new start (.ofBudget S)) h t)
    (t₀ w : Nat) :
    h.countP (fun e => Metered.Event.grantsWithin e t₀ w) ≤ S.capacity + w / S.interval := by
  refine le_trans ?_ (Bucket.charged_le Metered.elapsed (fun s => some s.mail.instanceBucket)
    Metered.Event.chargesInstance H (fun b hb => by cases hb; rfl)
    (fun e _ hs => ⟨Metered.elapsed_le hs, Metered.Event.moves_instance hs⟩) (t₀ - start) w)
  refine List.countP_mono_left fun e he hp => ?_
  obtain ⟨h₁, h₂, -, H₁, hs, -⟩ := H.of_mem he
  simp only [Metered.Event.grantsWithin, Bool.and_eq_true, decide_eq_true_eq] at hp ⊢
  obtain ⟨⟨⟨htake, hans⟩, hle⟩, hlt⟩ := hp
  have hpost : e.post.elapsed = Metered.Event.now e - start := by
    rw [Metered.elapsed_post hs, Limiter.elapsed, Metered.start_eq H₁]
    rfl
  rw [hpost]
  refine ⟨⟨Metered.Event.chargesInstance_of_take htake hans, Nat.sub_le_sub_right hle _⟩, ?_⟩
  calc Metered.Event.now e - start
    _ ≤ t₀ + w - start := Nat.sub_le_sub_right hlt _
    _ ≤ t₀ - start + w := by omega

theorem public_mail_budget (hper : 1 ≤ perHour ∧ perHour < 2 ^ 32)
    (H : Lts.Exec Metered.step (.new start (.new perHour (per_hour_le hper))) h t)
    (hmade : ∀ e ∈ h, e.label.made = true)
    (hrange : ∀ e ∈ h, e.label.now < start + fromSecs (2 ^ 62)) :
    (Checked.per perHour hour = some (perHour, hour / perHour) ∧ hour / perHour ≠ 0 ∧
      (∀ c, Checked.classBudget c = some (c.budget.capacity, c.budget.interval) ∧
        Checked.classAggregate c = some (c.aggregate.capacity, c.aggregate.interval)) ∧
      ∀ e ∈ h, ∀ a, e.label = .ask a → Checked.request e.pre a = some (e.pre.request a)) ∧
    (∀ t₀ w, h.countP (fun e => Metered.Event.grantsWithin e t₀ w) ≤
      perHour + w / (hour / perHour)) ∧
    ∀ e ∈ h, ∀ address now, e.label = .take address now →
      (e.pre.mail.take e.pre.limiter address now).1 = false →
      e.post.limiter = e.pre.limiter ∧ e.post.mail = e.pre.mail := by
  have hS : Checked.Fits (.per perHour hour (per_hour_le hper)) := Nat.mul_div_le _ _
  refine ⟨⟨?_, ?_, ?_, ?_⟩, granted_le H, ?_⟩
  · have hne : perHour ≠ 0 := Nat.one_le_iff_ne_zero.mp hper.1
    simp [Checked.per, Checked.div, hne]
  · exact (Nat.div_pos (per_hour_le hper).2 hper.1).ne'
  · intro c
    cases c <;> decide
  · intro e he a hl
    obtain ⟨h₁, h₂, hh, H₁, hs, -⟩ := H.of_mem he
    have hI := Metered.AllBounded.run H₁ fun e' he' => hmade e' (by simp [hh, he'])
    rw [hl] at hs
    apply hI.request_eq hS (hl ▸ hmade e he) (Metered.step_ask hs).1
    have hlt := hrange e he
    rw [hl] at hlt
    rw [Limiter.elapsed, Metered.start_eq H₁]
    exact .of_lt hlt
  · intro e he address now hl hans
    have hs := H.step_of_mem he
    rw [hl] at hs
    obtain ⟨-, hpost⟩ := Metered.step_ask hs
    have hadm : e.pre.admitted ⟨.mailSource address perSource, now, true⟩ = false := by
      rw [← Metered.request_fst]
      exact hans
    rw [hpost, Metered.request_of_false hadm]
    exact ⟨rfl, rfl⟩

/-! ## One mail an hour -/

namespace OneMail

/-- One public mail an hour, none of them taken. -/
def idle : Metered := .new 5 (.new 1 (by decide))

/-- Two mails within the hour and one after it. -/
def history : List Metered.Event := Lts.history Metered.step idle
  [.take (.v4 0xcb007105) 7, .ask ⟨.ofClass .read (.v4 0xcb007106), 8, false⟩,
    .take (.v4 0xcb007106) (fromSecs 3000), .sweep (fromSecs 3600),
    .take (.v4 0xcb007106) (fromSecs 3601)]

theorem run : Lts.Exec Metered.step idle history (Lts.last idle history) :=
  .of_history (by decide)

end OneMail

open OneMail in
theorem public_mail_budget_one_mail :
    Metered.answers history = [true, true, false, true] ∧
    (∀ t₀ w, history.countP (fun e => Metered.Event.grantsWithin e t₀ w) ≤
      1 + w / 3600000000000) := by
  refine ⟨by decide, fun t₀ w => ?_⟩
  exact (public_mail_budget ⟨le_rfl, by decide⟩ run (by decide) (by decide)).2.1 t₀
    w

end Kohaku.Limits
