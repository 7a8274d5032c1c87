import Kohaku.Limits.Calls
import Kohaku.Lts.Mealy

/-!
# A flood takes no bucket away

As long as no sweep removes a bucket of a demand, the calls for it are answered by its buckets
alone: calls for other keys neither change them nor send it to an overflow bucket. So two
continuations of one state that agree on the calls for the demand answer them alike.
-/

namespace Kohaku.Limits

open TokenBucket

/-- The two demands are the same keys, overflow bucket and budgets. -/
def Demand.same (d' d : Demand) : Bool := d'.keys = d.keys && d'.overflow = d.overflow

/-- The time and the extra answer of a call for `d`. -/
def Event.callFor? (d : Demand) (e : Event) : Option (Instant × Bool) :=
  match e.label with
  | .request d' now extra => if d'.same d then some (now, extra) else none
  | .sweep _ => none

/-- The calls for `d` of a history. -/
def callsFor (d : Demand) (h : List Event) : List (Instant × Bool) :=
  Lts.inputs (Event.callFor? d) h

/-- What they were answered. -/
def answersFor (d : Demand) (h : List Event) : List Bool :=
  Lts.answers (Event.callFor? d) Event.admitted h

/-- Every other request shares no key with `d`. -/
def SharesNoKey (d : Demand) (h : List Event) : Prop :=
  ∀ e ∈ h, ∀ d' ∈ e.label.demand?, d'.same d = false → ∀ p ∈ d.keys, p.1 ∉ d'.keys.map Prod.fst

instance (d : Demand) (h : List Event) : Decidable (SharesNoKey d h) :=
  inferInstanceAs (Decidable (∀ e ∈ h, ∀ d' ∈ e.label.demand?, d'.same d = false →
    ∀ p ∈ d.keys, p.1 ∉ d'.keys.map Prod.fst))

/-- No sweep removes a bucket of `d`. -/
def KeepsBuckets (d : Demand) (h : List Event) : Prop :=
  ∀ e ∈ h, e.label.demand? = none → ∀ p ∈ d.keys, p.1 ∈ e.pre.limiter.buckets →
    p.1 ∈ e.post.limiter.buckets

instance (d : Demand) (h : List Event) : Decidable (KeepsBuckets d h) :=
  inferInstanceAs (Decidable (∀ e ∈ h, e.label.demand? = none → ∀ p ∈ d.keys,
    p.1 ∈ e.pre.limiter.buckets → p.1 ∈ e.post.limiter.buckets))

/-! ## The buckets of a demand on their own -/

/-- A call answered by the buckets `bs` alone. -/
def askBuckets (start : Instant) (bs : List Bucket) (call : Instant × Bool) : Bool × List Bucket :=
  let now := call.1 - start
  if (bs.all fun b => b.admits now) && call.2 then (true, bs.map fun b => b.take now)
  else (false, bs)

/-- The limiter holds the buckets `bs` for the keys of `d`. -/
def Limiter.Holds (l : Limiter) (d : Demand) (bs : List Bucket) : Prop :=
  (d.keys.map fun p => l.buckets.lookup p.1) = bs.map some

variable {l l' : Limiter} {d d' : Demand} {bs : List Bucket} {e : Event} {s t : Clocked}
  {h : List Event} {now : Instant} {extra : Bool}

theorem Limiter.exists_holds (h : ∀ p ∈ d.keys, p.1 ∈ l.buckets) : ∃ bs, l.Holds d bs := by
  unfold Holds
  generalize d.keys = keys at h
  induction keys with
  | nil => exact ⟨[], rfl⟩
  | cons p keys ih =>
    obtain ⟨bs, hbs⟩ := ih fun q hq => h q (List.mem_cons_of_mem _ hq)
    obtain ⟨b, hb⟩ := Option.isSome_iff_exists.mp (AList.lookup_isSome.mpr (h p List.mem_cons_self))
    exact ⟨b :: bs, by rw [List.map_cons, List.map_cons, hb, hbs]⟩

theorem Limiter.Holds.mem (H : l.Holds d bs) (hp : p ∈ d.keys) :
    ∃ b ∈ bs, l.buckets.lookup p.1 = some b := by
  have : l.buckets.lookup p.1 ∈ bs.map some := H ▸ List.mem_map_of_mem hp
  obtain ⟨b, hb, heq⟩ := List.mem_map.mp this
  exact ⟨b, hb, heq.symm⟩

theorem Limiter.Holds.congr (H : l.Holds d bs)
    (h : ∀ p ∈ d.keys, l'.buckets.lookup p.1 = l.buckets.lookup p.1) : l'.Holds d bs := by
  unfold Holds
  rw [← H]
  exact List.map_congr_left h

/-- A demand whose buckets exist never takes the overflow path. -/
theorem Limiter.Holds.useOverflow (H : l.Holds d bs) : l.useOverflow d = false := by
  have hmissing : l.missing d = 0 := by
    refine List.countP_eq_zero.mpr fun p hp => ?_
    obtain ⟨b, -, hb⟩ := H.mem hp
    have hmem : p.1 ∈ l.buckets := AList.lookup_isSome.mp (by rw [hb]; rfl)
    simpa using hmem
  simp [Limiter.useOverflow, hmissing]

/-- Its calls are answered by its buckets. -/
theorem Limiter.Holds.admitted (H : l.Holds d bs) (now : Duration) (extra : Duration → Bool) :
    l.admitted d now extra = ((bs.all fun b => b.admits now) && extra now) := by
  have hall : (bs.all fun b => b.admits now) =
      d.keys.all fun p => (l.buckets.lookup p.1).all fun b => b.admits now := by
    change (bs.all ((fun o => o.all fun b : Bucket => b.admits now) ∘ some)) = _
    rw [← List.all_map, ← H, List.all_map]
    rfl
  simp only [Limiter.admitted, H.useOverflow, Bool.not_false, Bool.true_or, Bool.and_true, hall]
  congr 1
  rw [Bool.eq_iff_iff, List.all_eq_true, List.all_eq_true]
  refine forall₂_congr fun p hp => ?_
  obtain ⟨b, -, hb⟩ := H.mem hp
  simp [hb]

/-- And leave its buckets with a token less. -/
theorem Limiter.Holds.take (H : l.Holds d bs) {now : Duration}
    {overflow : AList fun _ : Overflow => Bucket} :
    Limiter.Holds ⟨l.start, l.takeKeys d now, overflow⟩ d (bs.map fun b => b.take now) := by
  unfold Holds
  have hmap := congrArg (List.map (Option.map fun b : Bucket => b.take now)) H
  simp only [List.map_map] at hmap ⊢
  refine (List.map_congr_left fun p hp => ?_).trans hmap
  obtain ⟨b, -, hb⟩ := H.mem hp
  rw [Limiter.lookup_takeKeys_of_mem (B := p.2) hp, hb]
  simp [Limiter.owns, hb]

/-! ## Steps -/

/-- A demand with the same keys holds the same buckets. -/
theorem Limiter.holds_same (h : d'.same d = true) : l.Holds d' bs ↔ l.Holds d bs := by
  obtain ⟨hkeys, -⟩ : d'.keys = d.keys ∧ d'.overflow = d.overflow := by
    simpa [Demand.same] using h
  unfold Holds
  rw [hkeys]

theorem Event.label_of_callFor (h : e.callFor? d = some (now, extra)) :
    ∃ d', e.label = .request d' now extra ∧ d'.same d = true := by
  unfold Event.callFor? at h
  split at h
  · split at h
    · cases h
      exact ⟨_, ‹_›, ‹_›⟩
    · cases h
  · cases h

/-- A call for `d` is answered by its buckets, and leaves them as on their own. -/
theorem Limiter.Holds.call (H : e.pre.limiter.Holds d bs)
    (hs : e.pre.step e.label = some e.post) (hc : e.callFor? d = some (now, extra)) :
    e.admitted = (askBuckets e.pre.limiter.start bs (now, extra)).1 ∧
      e.post.limiter.Holds d (askBuckets e.pre.limiter.start bs (now, extra)).2 ∧
      e.post.limiter.overflow = e.pre.limiter.overflow := by
  obtain ⟨d', hl, hd⟩ := Event.label_of_callFor hc
  have H' := (Limiter.holds_same hd).mpr H
  have hdoes := Event.does hs
  have hans := H'.admitted (e.pre.limiter.elapsed now) fun _ => extra
  unfold Limiter.elapsed at hans
  unfold askBuckets
  dsimp only
  rw [hl] at hdoes
  generalize e.admitted = b, e.post.limiter = l' at hdoes
  cases hdoes with
  | reject hadm =>
    rw [Limiter.elapsed, hans] at hadm
    simp only [hadm, Bool.false_eq_true, if_false, true_and, and_true]
    exact H
  | grant hadm =>
    rw [Limiter.elapsed, hans] at hadm
    simp only [hadm, if_true, true_and]
    exact ⟨(Limiter.holds_same hd).mp H'.take, Limiter.takeOverflow_of_false H'.useOverflow⟩

/-- Any other step leaves the buckets of `d` alone. -/
theorem Limiter.Holds.other (H : e.pre.limiter.Holds d bs) (he : e ∈ h)
    (hs : e.pre.step e.label = some e.post) (hc : e.callFor? d = none) (hno : SharesNoKey d h)
    (hkeep : KeepsBuckets d h) : e.post.limiter.Holds d bs := by
  refine H.congr fun p hp => ?_
  cases hd : e.label.demand? with
  | none =>
    obtain ⟨b, -, hb⟩ := H.mem hp
    have hmem := hkeep e he hd p hp (AList.lookup_isSome.mp (by rw [hb]; rfl))
    rw [(Event.limiter_of_sweep hs hd).2] at hmem ⊢
    rw [← AList.lookup_isSome] at hmem
    rw [Limiter.lookup_sweep, hb] at hmem ⊢
    exact Option.filter_eq_some_iff.mpr ⟨rfl, by simpa using hmem⟩
  | some d' =>
    refine Event.lookup_of_notMem hs hd (hno e he d' hd ?_ p hp)
    by_contra hsame
    rw [Bool.not_eq_false] at hsame
    have hl : ∃ now extra, e.label = .request d' now extra := by
      cases hl : e.label with
      | request d'' now extra =>
        rw [hl] at hd
        cases hd
        exact ⟨now, extra, rfl⟩
      | sweep => simp [hl, Call.demand?] at hd
    obtain ⟨now, extra, hl⟩ := hl
    simp [Event.callFor?, hl, hsame] at hc

/-! ## Whole runs -/

/-- The calls for `d` of a run are answered by its buckets alone. -/
theorem answersFor_eq (H : Lts.Exec Clocked.step s h t) (h0 : s.limiter.Holds d bs)
    (hno : SharesNoKey d h) (hkeep : KeepsBuckets d h) :
    answersFor d h = Mealy.outputs (askBuckets s.limiter.start) bs (callsFor d h) ∧
      ∃ bs', t.limiter.Holds d bs' := by
  have hrun := H.mealy (f := askBuckets s.limiter.start) (Event.callFor? d) Event.admitted
    (fun m bs => m.limiter.start = s.limiter.start ∧ m.limiter.Holds d bs) ⟨rfl, h0⟩ ?_ ?_
  · exact ⟨hrun.1, _, hrun.2.2⟩
  · intro e bs he hs hc hR
    exact ⟨(Clocked.start_of_step hs).trans hR.1, hR.2.other he hs hc hno hkeep⟩
  · intro e bs call he hs hc hR
    obtain ⟨hans, hholds, -⟩ := hR.2.call hs hc
    rw [hR.1] at hans hholds
    exact ⟨hans, (Clocked.start_of_step hs).trans hR.1, hholds⟩

/-- They charge no overflow bucket. -/
theorem overflow_of_call (H : Lts.Exec Clocked.step s h t)
    (hbuckets : ∀ p ∈ d.keys, p.1 ∈ s.limiter.buckets) (hno : SharesNoKey d h)
    (hkeep : KeepsBuckets d h) (he : e ∈ h) (hc : e.callFor? d = some (now, extra)) :
    e.post.limiter.overflow = e.pre.limiter.overflow := by
  obtain ⟨bs, h0⟩ := Limiter.exists_holds hbuckets
  obtain ⟨h₁, h₂, rfl, H₁, hs, -⟩ := H.of_mem he
  obtain ⟨-, bs', hholds⟩ := answersFor_eq H₁ h0
    (fun e he => hno e (List.mem_append_left _ he))
    (fun e he => hkeep e (List.mem_append_left _ he))
  exact (hholds.call hs hc).2.2

theorem flood_takes_no_bucket {h₁ h₂ p₁ p₂ : List Event} {t₁ t₂ : Clocked}
    (hbuckets : ∀ p ∈ d.keys, p.1 ∈ s.limiter.buckets)
    (H₁ : Lts.Exec Clocked.step s h₁ t₁) (H₂ : Lts.Exec Clocked.step s h₂ t₂)
    (hno₁ : SharesNoKey d h₁) (hno₂ : SharesNoKey d h₂) (hcalls : callsFor d h₁ = callsFor d h₂)
    (hp₁ : p₁ <+: h₁) (hp₂ : p₂ <+: h₂) (hkeep₁ : KeepsBuckets d p₁) (hkeep₂ : KeepsBuckets d p₂) :
    (∀ (i : Nat) a₁ a₂, (answersFor d p₁)[i]? = some a₁ → (answersFor d p₂)[i]? =
      some a₂ → a₁ = a₂) ∧
    (∀ e ∈ p₁ ++ p₂, ∀ now extra, e.callFor? d = some (now, extra) →
      e.post.limiter.overflow = e.pre.limiter.overflow) := by
  obtain ⟨bs, h0⟩ := Limiter.exists_holds hbuckets
  obtain ⟨q₁, rfl⟩ := hp₁
  obtain ⟨q₂, rfl⟩ := hp₂
  obtain ⟨m₁, H₁, -⟩ := H₁.of_append
  obtain ⟨m₂, H₂, -⟩ := H₂.of_append
  have hno₁ : SharesNoKey d p₁ := fun e he => hno₁ e (List.mem_append_left _ he)
  have hno₂ : SharesNoKey d p₂ := fun e he => hno₂ e (List.mem_append_left _ he)
  constructor
  · -- both lists of answers are a beginning of what the buckets answer to all the calls
    intro i a₁ a₂ ha₁ ha₂
    have hpre₁ : callsFor d p₁ <+: callsFor d (p₁ ++ q₁) := by
      rw [callsFor, callsFor, Lts.inputs_append]
      exact List.prefix_append _ _
    have hpre₂ : callsFor d p₂ <+: callsFor d (p₁ ++ q₁) := by
      rw [hcalls, callsFor, callsFor, Lts.inputs_append]
      exact List.prefix_append _ _
    rw [(answersFor_eq H₁ h0 hno₁ hkeep₁).1] at ha₁
    rw [(answersFor_eq H₂ h0 hno₂ hkeep₂).1] at ha₂
    have hget₁ := Mealy.outputs_of_prefix hpre₁ ha₁
    have hget₂ := Mealy.outputs_of_prefix hpre₂ ha₂
    exact Option.some.inj (hget₁.symm.trans hget₂)
  · intro e he now extra hc
    rcases List.mem_append.mp he with he | he
    · exact overflow_of_call H₁ hbuckets hno₁ hkeep₁ he hc
    · exact overflow_of_call H₂ hbuckets hno₂ hkeep₂ he hc

/-! ## A client during a flood and without one -/

namespace Client

/-- A request of a client. -/
def client : Demand := .ofClass .reset (.v4 0xc6336407)

/-- A request from another network. -/
def neighbour (n : Nat) : Demand := .ofClass .reset (.v6 (.ofNat 128 (n <<< 80)))

/-- The client has made one request. -/
def start : Clocked :=
  Lts.last (.new 0) (Lts.history Clocked.step (.new 0) [.request client 1 true])

/-- The client's requests among those of others. -/
def flooded : List Event := Lts.history Clocked.step start
  [.request (neighbour 1) 2 true, .request client 3 true, .request (neighbour 2) 4 true, .sweep 5,
    .request client 6 false, .request client 7 true]

/-- The same requests without the others. -/
def quiet : List Event := Lts.history Clocked.step start
  [.request client 3 true, .request client 6 false, .sweep 6, .request client 7 true]

theorem run_flooded : Lts.Exec Clocked.step start flooded (Lts.last start flooded) :=
  .of_history (by decide)

theorem run_quiet : Lts.Exec Clocked.step start quiet (Lts.last start quiet) :=
  .of_history (by decide)

end Client

open Client in
theorem flood_takes_no_bucket_client :
    answersFor client flooded = [true, false, true] ∧
    (∀ (i : Nat) a₁ a₂, (answersFor client flooded)[i]? = some a₁ →
      (answersFor client quiet)[i]? = some a₂ → a₁ = a₂) ∧
    ∀ e ∈ flooded ++ quiet, ∀ now extra, e.callFor? client = some (now, extra) →
      e.post.limiter.overflow = e.pre.limiter.overflow :=
  ⟨by decide,
    flood_takes_no_bucket (by decide) run_flooded run_quiet (by decide)
      (by decide) (by decide) (List.prefix_refl _) (List.prefix_refl _)
      (by decide) (by decide)⟩

end Kohaku.Limits
