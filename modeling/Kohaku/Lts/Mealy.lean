import Kohaku.Lts.Exec

/-!
# Machines with outputs

A machine takes an input and gives an output and its next state. `Lts.Exec.mealy` is the simulation
rule: a system whose observed steps are inputs of the machine, and whose other steps the machine
does not see, gives the machine's outputs. `Mealy.outputs_filter` compares a machine with itself,
without some of its inputs.
-/

namespace Mealy

variable {τ α β : Type}

/-- The outputs for a list of inputs. -/
def outputs (f : τ → α → β × τ) (m : τ) : List α → List β
  | [] => []
  | a :: as => (f m a).1 :: outputs f (f m a).2 as

/-- The state after a list of inputs. -/
def final (f : τ → α → β × τ) (m : τ) (as : List α) : τ := as.foldl (fun m a => (f m a).2) m

variable {f : τ → α → β × τ} {m : τ} {as bs : List α}

theorem outputs_append : outputs f m (as ++ bs) = outputs f m as ++ outputs f
    (final f m as) bs := by
  induction as generalizing m with
  | nil => rfl
  | cons a as ih => exact congrArg _ ih

theorem final_append : final f m (as ++ bs) = final f (final f m as) bs :=
  List.foldl_append

/-- The outputs for the inputs that are kept. -/
def kept (keep : α → Bool) (f : τ → α → β × τ) (m : τ) : List α → List β
  | [] => []
  | a :: as => if keep a then (f m a).1 :: kept keep f (f m a).2 as else kept keep f (f m a).2 as

/-- Inputs that no later output shows may be left out. `R` relates the machine without them to the
one with them, given the inputs still to come. -/
theorem outputs_filter {keep : α → Bool} (R : List α → τ → τ → Prop) {m' : τ} (h0 : R as m m')
    (hdrop : ∀ {a as m m'}, R (a :: as) m m' → keep a = false → R as m (f m' a).2)
    (hkeep : ∀ {a as m m'}, R (a :: as) m m' → keep a = true →
      (f m a).1 = (f m' a).1 ∧ R as (f m a).2 (f m' a).2) :
    outputs f m (as.filter keep) = kept keep f m' as := by
  induction as generalizing m m' with
  | nil => rfl
  | cons a as ih =>
    cases hk : keep a with
    | false =>
      rw [List.filter_cons_of_neg (by simp [hk]), kept, hk]
      exact ih (hdrop h0 hk)
    | true =>
      obtain ⟨hout, hR⟩ := hkeep h0 hk
      rw [List.filter_cons_of_pos hk, kept, hk, outputs, ih hR, hout]
      rfl

/-- The machine does not look ahead. -/
theorem outputs_of_prefix (h : as <+: bs) {i : Nat} {b : β} (hb : (outputs f m as)[i]? = some b) :
    (outputs f m bs)[i]? = some b := by
  obtain ⟨cs, rfl⟩ := h
  have hlt := (List.getElem?_eq_some_iff.mp hb).1
  rw [outputs_append, List.getElem?_append_left hlt, hb]

end Mealy

namespace Lts

variable {σ ℓ τ α β : Type} {step : σ → ℓ → Option σ} {s t : σ} {h : List (Step σ ℓ)}
  {f : τ → α → β × τ} {m : τ}

/-- The inputs a history gives a machine, and what the system answers to them. -/
def inputs (obs : Step σ ℓ → Option α) (h : List (Step σ ℓ)) : List α := h.filterMap obs

/-- The outputs of the steps that are observed. -/
def answers (obs : Step σ ℓ → Option α) (out : Step σ ℓ → β) (h : List (Step σ ℓ)) : List β :=
  h.filterMap fun e => (obs e).map fun _ => out e

theorem inputs_append (obs : Step σ ℓ → Option α) (h₁ h₂ : List (Step σ ℓ)) :
    inputs obs (h₁ ++ h₂) = inputs obs h₁ ++ inputs obs h₂ :=
  List.filterMap_append

/-- A relation that silent steps keep and observed steps keep with the machine's, giving the
machine's output, makes the system answer as the machine. -/
theorem Exec.mealy (obs : Step σ ℓ → Option α) (out : Step σ ℓ → β) (R : σ → τ → Prop)
    (H : Exec step s h t) (h0 : R s m)
    (hsilent : ∀ {e m}, e ∈ h → step e.pre e.label = some e.post → obs e = none → R e.pre m →
      R e.post m)
    (hobs : ∀ {e m a}, e ∈ h → step e.pre e.label = some e.post → obs e = some a → R e.pre m →
      out e = (f m a).1 ∧ R e.post (f m a).2) :
    answers obs out h = Mealy.outputs f m (inputs obs h) ∧
      R t (Mealy.final f m (inputs obs h)) := by
  induction H with
  | nil => exact ⟨rfl, h0⟩
  | @snoc h u l t H hs ih =>
    obtain ⟨hout, hR⟩ := ih (fun he => hsilent (List.mem_append_left _ he))
      (fun he => hobs (List.mem_append_left _ he))
    have hmem : (⟨u, l, t⟩ : Step σ ℓ) ∈ h ++ [⟨u, l, t⟩] := by simp
    have happ : answers obs out (h ++ [⟨u, l, t⟩]) =
        answers obs out h ++ answers obs out [⟨u, l, t⟩] := List.filterMap_append
    rw [happ, inputs_append, Mealy.outputs_append, Mealy.final_append, hout]
    cases ho : obs ⟨u, l, t⟩ with
    | none =>
      refine ⟨?_, ?_⟩
      · simp [answers, inputs, ho, Mealy.outputs]
      · simpa [inputs, ho, Mealy.final] using hsilent hmem hs ho hR
    | some a =>
      obtain ⟨hfst, hR'⟩ := hobs hmem hs ho hR
      refine ⟨?_, ?_⟩
      · simp [answers, inputs, ho, Mealy.outputs, hfst]
      · simpa [inputs, ho, Mealy.final] using hR'

end Lts
