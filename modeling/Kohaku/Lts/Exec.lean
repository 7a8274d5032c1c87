import Mathlib

/-!
# Executions of a labelled transition system

A system is a partial function `step : σ → ℓ → Option σ`; everything a step may choose (the
order of steps, random values, clock readings) is part of the label, so a property of every
`Exec` is a property of every interleaving. An execution keeps its history: the list of its
steps, each with the state before, the label and the state after. `Exec.invariant` is the
induction rule for states, `Exec.rec_snoc` the one for a state together with its history, and
`trace` evaluates a list of labels to a history.
-/

namespace Lts

variable {σ ℓ : Type}

/-- One step of an execution. -/
structure Step (σ ℓ : Type) where
  pre : σ
  label : ℓ
  post : σ

/-- `Exec step s h t`: from `s` the steps of the history `h` lead to `t`. -/
inductive Exec (step : σ → ℓ → Option σ) (s : σ) : List (Step σ ℓ) → σ → Prop
  | nil : Exec step s [] s
  | snoc : Exec step s h t → step t l = some u → Exec step s (h ++ [⟨t, l, u⟩]) u

namespace Exec

variable {step : σ → ℓ → Option σ} {s t u : σ} {h h₁ h₂ : List (Step σ ℓ)} {e : Step σ ℓ}

/-- What holds at the start and is kept by every step holds in every state reached. -/
theorem invariant (I : σ → Prop) (H : Exec step s h t) (h0 : I s)
    (hstep : ∀ {t l u}, I t → step t l = some u → I u) : I t := by
  induction H with
  | nil => exact h0
  | snoc _ hs ih => exact hstep ih hs

theorem append (H₁ : Exec step s h₁ t) (H₂ : Exec step t h₂ u) : Exec step s (h₁ ++ h₂) u := by
  induction H₂ with
  | nil => simpa using H₁
  | snoc _ hs ih =>
    rw [← List.append_assoc]
    exact .snoc ih hs

theorem cons (hs : step s l = some t) (H : Exec step t h u) :
    Exec step s (⟨s, l, t⟩ :: h) u :=
  append (.snoc .nil hs) H

theorem of_snoc (H : Exec step s (h ++ [e]) t) :
    Exec step s h e.pre ∧ step e.pre e.label = some e.post ∧ e.post = t := by
  generalize hk : h ++ [e] = k at H
  cases H with
  | nil => simp at hk
  | snoc H hs =>
    obtain ⟨rfl, he⟩ := List.append_inj' hk rfl
    cases List.singleton_inj.mp he
    exact ⟨H, hs, rfl⟩

theorem eq_of_nil (H : Exec step s [] t) : t = s := by
  generalize hk : ([] : List (Step σ ℓ)) = k at H
  cases H with
  | nil => rfl
  | snoc => simp at hk

/-- An execution can be cut at any point of its history. -/
theorem of_append (H : Exec step s (h₁ ++ h₂) t) : ∃ m, Exec step s h₁ m ∧ Exec step m h₂ t := by
  induction h₂ using List.reverseRecOn generalizing t with
  | nil => exact ⟨t, by simpa using H, .nil⟩
  | append_singleton h₂ e ih =>
    rw [← List.append_assoc] at H
    obtain ⟨H', hs, rfl⟩ := H.of_snoc
    obtain ⟨m, H₁, H₂⟩ := ih H'
    exact ⟨m, H₁, .snoc H₂ hs⟩

theorem of_cons (H : Exec step s (e :: h) t) :
    e.pre = s ∧ step s e.label = some e.post ∧ Exec step e.post h t := by
  obtain ⟨m, H₁, H₂⟩ := of_append (show Exec step s ([e] ++ h) t from H)
  obtain ⟨H₀, hs, rfl⟩ := of_snoc (h := []) H₁
  obtain rfl := H₀.eq_of_nil
  exact ⟨rfl, hs, H₂⟩

/-- The execution around one of its steps. -/
theorem split (H : Exec step s (h₁ ++ e :: h₂) t) :
    Exec step s h₁ e.pre ∧ step e.pre e.label = some e.post ∧ Exec step e.post h₂ t := by
  obtain ⟨m, H₁, H₂⟩ := H.of_append
  obtain ⟨rfl, hs, H₃⟩ := H₂.of_cons
  exact ⟨H₁, hs, H₃⟩

theorem of_mem (H : Exec step s h t) (he : e ∈ h) :
    ∃ h₁ h₂, h = h₁ ++ e :: h₂ ∧ Exec step s h₁ e.pre ∧ step e.pre e.label = some e.post ∧
      Exec step e.post h₂ t := by
  obtain ⟨h₁, h₂, rfl⟩ := List.append_of_mem he
  exact ⟨h₁, h₂, rfl, H.split⟩

/-- The state before a step is reached by what precedes it. -/
theorem step_of_mem (H : Exec step s h t) (he : e ∈ h) : step e.pre e.label = some e.post := by
  obtain ⟨_, _, _, _, hs, _⟩ := H.of_mem he
  exact hs

/-- A property of a state and the history that led to it holds throughout, if it holds of the
empty history and every step keeps it. -/
theorem rec_snoc (I : List (Step σ ℓ) → σ → Prop) (H : Exec step s h t) (h0 : I [] s)
    (hstep : ∀ {h t l u}, Exec step s h t → I h t → step t l = some u →
      I (h ++ [⟨t, l, u⟩]) u) : I h t := by
  induction H with
  | nil => exact h0
  | snoc H hs ih => exact hstep H ih hs

/-- What holds at the end and did not hold at the start was brought about by a step and has held
ever since. -/
theorem origin (P : σ → Prop) (H : Exec step s h t) (h0 : ¬P s) (ht : P t) :
    ∃ h₁ e h₂, h = h₁ ++ e :: h₂ ∧ ¬P e.pre ∧ P e.post ∧ ∀ e' ∈ h₂, P e'.pre ∧ P e'.post := by
  induction H with
  | nil => exact absurd ht h0
  | @snoc h m l u H hs ih =>
    by_cases hm : P m
    · obtain ⟨h₁, e, h₂, rfl, hpre, hpost, hkeep⟩ := ih hm
      refine ⟨h₁, e, h₂ ++ [⟨m, l, u⟩], by simp, hpre, hpost, ?_⟩
      intro e' he'
      rcases List.mem_append.mp he' with he' | he'
      · exact hkeep e' he'
      · rw [List.mem_singleton.mp he']
        exact ⟨hm, ht⟩
    · exact ⟨h, _, [], rfl, hm, ht, by simp⟩

/-- What holds at the start and is kept by every step of the history holds at the end; a step may
use what comes before it. -/
theorem stays (P : σ → Prop) (H : Exec step s h t) (h0 : P s)
    (hkeep : ∀ {h₁ e h₂}, h = h₁ ++ e :: h₂ → Exec step s h₁ e.pre →
      step e.pre e.label = some e.post → P e.pre → P e.post) : P t := by
  induction H with
  | nil => exact h0
  | @snoc h m l u H hs ih =>
    refine hkeep (e := ⟨m, l, u⟩) rfl H hs (ih ?_)
    rintro h₁ e h₂ rfl
    exact hkeep (List.append_assoc h₁ (e :: h₂) [⟨m, l, u⟩])

/-- What a step can do only before `Q` holds, and brings `Q` about, is done at most once. -/
theorem once (m : Step σ ℓ → Nat) (Q : σ → Prop) (H : Exec step s h t)
    (hle : ∀ {e}, step e.pre e.label = some e.post → m e ≤ 1)
    (hdone : ∀ {e}, step e.pre e.label = some e.post → m e ≠ 0 → Q e.post)
    (hkeep : ∀ {e}, step e.pre e.label = some e.post → Q e.pre → Q e.post ∧ m e = 0) :
    (h.map m).sum ≤ 1 := by
  suffices hsum : (h.map m).sum = 0 ∨ (h.map m).sum = 1 ∧ Q t by omega
  induction H with
  | nil => exact .inl rfl
  | @snoc h t l u H hs ih =>
    have hstep : step (⟨t, l, u⟩ : Step σ ℓ).pre l = some u := hs
    rw [List.map_append, List.sum_append, List.map_singleton, List.sum_singleton]
    rcases ih with h0 | ⟨h1, hQ⟩
    · by_cases hm : m ⟨t, l, u⟩ = 0
      · exact .inl (by rw [h0, hm])
      · have := hle hstep
        exact .inr ⟨by omega, hdone hstep hm⟩
    · obtain ⟨hQ', hm⟩ := hkeep hstep hQ
      exact .inr ⟨by rw [h1, hm], hQ'⟩

/-- A value that no step changes is the same at the end as at the start. -/
theorem eq_of_forall {β : Type} (f : σ → β) (H : Exec step s h t)
    (hkeep : ∀ e ∈ h, step e.pre e.label = some e.post → f e.post = f e.pre) : f t = f s := by
  induction H with
  | nil => rfl
  | @snoc h m l u H hs ih =>
    rw [← ih fun e he => hkeep e (List.mem_append_left _ he)]
    exact hkeep ⟨m, l, u⟩ (by simp) hs

/-- A second execution without some of the steps. The relation `R` holds at the start; a step that
is left out keeps it, and a step that is kept can be done on the other side too, with the same
observation. -/
theorem reduce {β : Type} (keep : Step σ ℓ → Bool) (R : σ → σ → Prop) (obs : Step σ ℓ → β)
    {s' : σ} (H : Exec step s h t) (h0 : R s s')
    (hdrop : ∀ {e m'}, e ∈ h → step e.pre e.label = some e.post → keep e = false → R e.pre m' →
      R e.post m')
    (hkeep : ∀ {e m'}, e ∈ h → step e.pre e.label = some e.post → keep e = true → R e.pre m' →
      ∃ u', step m' e.label = some u' ∧ R e.post u' ∧ obs ⟨m', e.label, u'⟩ = obs e) :
    ∃ h' t', Exec step s' h' t' ∧ h'.map Step.label = (h.filter keep).map Step.label ∧
      h'.map obs = (h.filter keep).map obs ∧ R t t' := by
  induction H with
  | nil => exact ⟨[], s', .nil, rfl, rfl, h0⟩
  | @snoc h m l u H hs ih =>
    obtain ⟨h', m', H', hlab, hobs, hR⟩ := ih
      (fun he => hdrop (List.mem_append_left _ he)) (fun he => hkeep (List.mem_append_left _ he))
    have hmem : (⟨m, l, u⟩ : Step σ ℓ) ∈ h ++ [⟨m, l, u⟩] := by simp
    cases hk : keep ⟨m, l, u⟩ with
    | false =>
      refine ⟨h', m', H', ?_, ?_, hdrop hmem hs hk hR⟩
      · simp [List.filter_append, hk, hlab]
      · simp [List.filter_append, hk, hobs]
    | true =>
      obtain ⟨u', hs', hR', ho⟩ := hkeep hmem hs hk hR
      refine ⟨h' ++ [⟨m', l, u'⟩], u', H'.snoc hs', ?_, ?_, hR'⟩
      · simp [List.filter_append, hk, hlab]
      · simp [List.filter_append, hk, hobs, ho]

end Exec

/-- The history of running the labels from `s`; `none` when one of them is not enabled. -/
def trace (step : σ → ℓ → Option σ) (s : σ) : List ℓ → Option (List (Step σ ℓ))
  | [] => some []
  | l :: ls => do
    let t ← step s l
    let h ← trace step t ls
    return ⟨s, l, t⟩ :: h

/-- The state a history from `s` ends in. -/
def last (s : σ) : List (Step σ ℓ) → σ
  | [] => s
  | e :: h => last e.post h

theorem last_append {s : σ} {h₁ h₂ : List (Step σ ℓ)} :
    last s (h₁ ++ h₂) = last (last s h₁) h₂ := by
  induction h₁ generalizing s with
  | nil => rfl
  | cons e h₁ ih => exact ih

theorem Exec.last_eq {step : σ → ℓ → Option σ} {s t : σ} {h : List (Step σ ℓ)}
    (H : Exec step s h t) : last s h = t := by
  cases H with
  | nil => rfl
  | snoc => rw [last_append]; rfl

theorem Exec.of_trace {step : σ → ℓ → Option σ} {s : σ} {ls : List ℓ} {h : List (Step σ ℓ)}
    (H : trace step s ls = some h) : Exec step s h (last s h) := by
  induction ls generalizing s h with
  | nil => cases H; exact .nil
  | cons l ls ih =>
    simp only [trace, Option.bind_eq_bind, Option.bind_eq_some_iff, Option.pure_def,
      Option.some.injEq] at H
    obtain ⟨t, hs, h', hh, rfl⟩ := H
    exact .cons hs (ih hh)

/-- The history of running the labels from `s`, when all are enabled. -/
def history (step : σ → ℓ → Option σ) (s : σ) (ls : List ℓ) : List (Step σ ℓ) :=
  (trace step s ls).getD []

theorem Exec.of_history {step : σ → ℓ → Option σ} {s : σ} {ls : List ℓ}
    (H : (trace step s ls).isSome = true) :
    Exec step s (history step s ls) (last s (history step s ls)) := by
  obtain ⟨h, hh⟩ := Option.isSome_iff_exists.mp H
  unfold history
  rw [hh]
  exact .of_trace hh

theorem length_of_trace {step : σ → ℓ → Option σ} {s : σ} {ls : List ℓ} {h : List (Step σ ℓ)}
    (H : trace step s ls = some h) : h.length = ls.length := by
  induction ls generalizing s h with
  | nil => cases H; rfl
  | cons l ls ih =>
    simp only [trace, Option.bind_eq_bind, Option.bind_eq_some_iff, Option.pure_def,
      Option.some.injEq] at H
    obtain ⟨t, -, h', hh, rfl⟩ := H
    rw [List.length_cons, List.length_cons, ih hh]

theorem length_history {step : σ → ℓ → Option σ} {s : σ} {ls : List ℓ}
    (H : (trace step s ls).isSome = true) : (history step s ls).length = ls.length := by
  obtain ⟨h, hh⟩ := Option.isSome_iff_exists.mp H
  unfold history
  rw [hh]
  exact length_of_trace hh

end Lts
