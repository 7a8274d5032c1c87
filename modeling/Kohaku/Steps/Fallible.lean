import Mathlib

/-!
# Programs of steps that may fail

A program over a state whose steps can fail: `ExceptT ε (StateM σ)`, where the state survives an
error. Whether a step fails is an argument, so a property of a program for every argument is one of
every choice of failing steps. The rules are pre- and postconditions in the sense of `Std.Do`, with
a condition for the normal end and one for errors; `Ends.run` turns them into a statement about a
run.
-/

namespace Fallible

open Std.Do

variable {σ ε α β : Type}

/-- Steps over a state that can end with an error; the state is then the one they left. -/
abbrev Prog (σ ε α : Type) := ExceptT ε (StateM σ) α

/-- The result and the state a program ends with. -/
def Prog.exec (p : Prog σ ε α) (s : σ) : Except ε α × σ := p.run.run s

/-- One step: it fails without effect or changes the state. -/
def attempt (fails : Bool) (error : ε) (effect : σ → σ) : Prog σ ε Unit := do
  if fails then throw error
  modify effect

/-- Runs `cleanup` if the program ends with an error, and keeps the error. -/
def onError (p : Prog σ ε α) (cleanup : σ → σ) : Prog σ ε α :=
  tryCatch p fun e => do
    modify cleanup
    throw e

/-- Runs `cleanup` on the error the program ends with, and keeps the error. -/
def onErrorWith (p : Prog σ ε α) (cleanup : ε → σ → σ) : Prog σ ε α :=
  tryCatch p fun e => do
    modify (cleanup e)
    throw e

/-- From `P` the program ends in `Q` or with an error in `E`. -/
def Ends (P : σ → Prop) (p : Prog σ ε α) (Q : α → σ → Prop) (E : ε → σ → Prop) : Prop :=
  ⦃fun s => ⌜P s⌝⦄ p ⦃post⟨fun a s => ⌜Q a s⌝, fun e s => ⌜E e s⌝⟩⦄

namespace Ends

variable {P : σ → Prop} {p : Prog σ ε α} {Q : α → σ → Prop} {E : ε → σ → Prop} {R : β → σ → Prop}

/-- The conditions are about the run. -/
theorem iff_exec : Ends P p Q E ↔ ∀ s, P s →
    match p.exec s with
    | (.ok a, s') => Q a s'
    | (.error e, s') => E e s' := by
  have hwp : ∀ s, ((wp⟦p⟧ post⟨fun a s => ⌜Q a s⌝, fun e s => ⌜E e s⌝⟩) s).down ↔
      match p.exec s with
      | (.ok a, s') => Q a s'
      | (.error e, s') => E e s' := by
    intro s
    simp only [wp, PredTrans.pushExcept, PredTrans.pushArg, PredTrans.apply, Prog.exec,
      StateT.run, pure]
    rcases ExceptT.run p s with ⟨⟨_⟩ | ⟨_⟩, _⟩
    · exact Iff.rfl
    · exact Iff.rfl
  exact ⟨fun H s hs => (hwp s).mp (H s hs), fun H s hs => (hwp s).mpr (H s hs)⟩

theorem mono {P' : σ → Prop} {Q' : α → σ → Prop} {E' : ε → σ → Prop} (H : Ends P p Q E)
    (hP : ∀ s, P' s → P s) (hQ : ∀ a s, Q a s → Q' a s) (hE : ∀ e s, E e s → E' e s) :
    Ends P' p Q' E' := by
  rw [iff_exec] at H ⊢
  intro s hs
  have hrun := H s (hP s hs)
  rcases hr : p.exec s with ⟨⟨e⟩ | ⟨a⟩, s'⟩
  · rw [hr] at hrun
    exact hE e s' hrun
  · rw [hr] at hrun
    exact hQ a s' hrun

theorem mono_error {E' : ε → σ → Prop} (H : Ends P p Q E) (hE : ∀ e s, E e s → E' e s) :
    Ends P p Q E' :=
  H.mono (fun _ hs => hs) (fun _ _ hs => hs) hE

theorem and {P' : σ → Prop} {Q' : α → σ → Prop} {E' : ε → σ → Prop} (H : Ends P p Q E)
    (H' : Ends P' p Q' E') :
    Ends (fun s => P s ∧ P' s) p (fun a s => Q a s ∧ Q' a s) fun e s => E e s ∧ E' e s := by
  rw [iff_exec] at H H' ⊢
  intro s hs
  have hrun := H s hs.1
  have hrun' := H' s hs.2
  rcases hr : p.exec s with ⟨⟨e⟩ | ⟨a⟩, s'⟩
  · rw [hr] at hrun hrun'
    exact ⟨hrun, hrun'⟩
  · rw [hr] at hrun hrun'
    exact ⟨hrun, hrun'⟩

/-- The state at the start can be fixed. -/
theorem of_state (h : ∀ s₀, P s₀ → Ends (fun s => s = s₀) p Q E) : Ends P p Q E :=
  fun s hs => h s hs s rfl

/-- What does not depend on the state can be assumed. -/
theorem assume {a : Prop} (h : a → Ends P p Q E) : Ends (fun s => a ∧ P s) p Q E :=
  fun s hs => h hs.1 s hs.2

theorem bind {f : α → Prog σ ε β} (hp : Ends P p Q E) (hf : ∀ a, Ends (Q a) (f a) R E) :
    Ends P (p >>= f) R E :=
  Triple.bind p f hp hf

theorem attempt {fails : Bool} {error : ε} {effect : σ → σ} {Q : σ → Prop}
    (hok : fails = false → ∀ s, P s → Q (effect s)) (herr : fails = true → ∀ s, P s → E error s) :
    Ends P (attempt fails error effect) (fun _ => Q) E := by
  rw [iff_exec]
  intro s hs
  cases fails with
  | false => exact hok rfl s hs
  | true => exact herr rfl s hs

/-- A step and what follows it, where the step is known not to have failed. -/
theorem attempt_bind {fails : Bool} {error : ε} {effect : σ → σ} {Q : σ → Prop}
    {f : Unit → Prog σ ε β} (herr : fails = true → ∀ s, P s → E error s)
    (hok : fails = false → ∀ s, P s → Q (effect s)) (hrest : fails = false → Ends Q (f ()) R E) :
    Ends P (Fallible.attempt fails error effect >>= f) R E := by
  refine (Ends.attempt (Q := fun s => fails = false ∧ Q s) ?_ herr).bind fun _ => Ends.assume hrest
  exact fun hfails s hs => ⟨hfails, hok hfails s hs⟩

theorem get : Ends P (get : Prog σ ε σ) (fun a s => a = s ∧ P s) E := by
  rw [iff_exec]
  intro s hs
  exact ⟨rfl, hs⟩

/-- Of the state that is read, what held before is known. -/
theorem read {f : σ → Prog σ ε β} (h : ∀ a, P a → Ends P (f a) R E) :
    Ends P (MonadState.get >>= f : Prog σ ε β) R E :=
  fun s hs => h s hs s hs

theorem modifyGet {f : σ → α × σ} (h : ∀ s, P s → Q (f s).1 (f s).2) :
    Ends P (modifyGet f : Prog σ ε α) Q E :=
  fun s hs => h s hs

theorem onErrorWith {cleanup : ε → σ → σ} (hp : Ends P p Q fun e s => E e (cleanup e s)) :
    Ends P (onErrorWith p cleanup) Q E := by
  rw [iff_exec] at hp ⊢
  intro s hs
  have hrun := hp s hs
  have hexec : (Fallible.onErrorWith p cleanup).exec s =
      match p.exec s with
      | (.ok a, s') => (.ok a, s')
      | (.error e, s') => (.error e, cleanup e s') := by
    change (fun r : Except ε α × σ =>
      (match r.1 with
        | .ok a => (pure (.ok a) : StateM σ (Except ε α))
        | .error e => (do modify (cleanup e); throw e : Prog σ ε α).run).run r.2) (p.exec s) = _
    rcases p.exec s with ⟨⟨_⟩ | ⟨_⟩, _⟩ <;> rfl
  rw [hexec]
  rcases hr : p.exec s with ⟨⟨_⟩ | ⟨_⟩, _⟩ <;> rw [hr] at hrun <;> exact hrun

theorem onError {cleanup : σ → σ} (hp : Ends P p Q fun e s => E e (cleanup s)) :
    Ends P (onError p cleanup) Q E :=
  Ends.onErrorWith hp

theorem run (H : Ends P p Q E) {s : σ} (hs : P s) :
    (∀ a s', p.exec s = (.ok a, s') → Q a s') ∧ ∀ e s', p.exec s = (.error e, s') → E e s' := by
  have hrun := iff_exec.mp H s hs
  refine ⟨fun a s' h => ?_, fun e s' h => ?_⟩
  · rw [h] at hrun
    exact hrun
  · rw [h] at hrun
    exact hrun

theorem pure {a : α} (h : ∀ s, P s → Q a s) : Ends P (pure a : Prog σ ε α) Q E :=
  fun s hs => h s hs

theorem throw {e : ε} (h : ∀ s, P s → E e s) : Ends P (throw e : Prog σ ε α) Q E :=
  fun s hs => h s hs

end Ends

/-! ## What a program leaves alone -/

/-- The program does not change the part `part` of the state. -/
def Frame (part : σ → β) (p : Prog σ ε α) : Prop :=
  ∀ b, Ends (fun s => part s = b) p (fun _ s => part s = b) fun _ s => part s = b

namespace Frame

variable {γ : Type} {part : σ → β} {p : Prog σ ε α} {f : α → Prog σ ε γ}

theorem bind (hp : Frame part p) (hf : ∀ a, Frame part (f a)) : Frame part (p >>= f) :=
  fun b => (hp b).bind fun a => hf a b

theorem attempt {fails : Bool} {error : ε} {effect : σ → σ} (h : ∀ s, part (effect s) = part s) :
    Frame part (attempt fails error effect) :=
  fun _ => Ends.attempt (fun _ s hs => (h s).trans hs) fun _ _ hs => hs

theorem get : Frame part (get : Prog σ ε σ) :=
  fun _ => Ends.get.mono (fun _ hs => hs) (fun _ _ hs => hs.2) fun _ _ hs => hs

theorem onErrorWith {cleanup : ε → σ → σ} (hp : Frame part p)
    (h : ∀ e s, part (cleanup e s) = part s) : Frame part (onErrorWith p cleanup) :=
  fun b => Ends.onErrorWith ((hp b).mono_error fun e s hs => (h e s).trans hs)

theorem pure {a : α} : Frame part (pure a : Prog σ ε α) := fun _ => Ends.pure fun _ hs => hs

end Frame

/-! ## Recording the states -/

/-- A state with the states before it, the first first. -/
structure Traced (σ : Type) where
  now : σ
  past : List σ

namespace Traced

/-- The states so far. -/
def states (t : Traced σ) : List σ := t.past ++ [t.now]

/-- A state before any step. -/
def start (s : σ) : Traced σ := ⟨s, []⟩

/-- A step, and the state before it is kept. -/
def step (t : Traced σ) (f : σ → σ) : Traced σ := ⟨f t.now, t.states⟩

/-- Each state is related to all later ones, and the last one has the property. -/
structure At (R : σ → σ → Prop) (P : σ → Prop) (t : Traced σ) : Prop where
  pairwise : t.states.Pairwise R
  now : P t.now

variable {R : σ → σ → Prop} {P Q : σ → Prop} {t : Traced σ} {f : σ → σ} {s : σ}

theorem At.start (h : P s) : At R P (start s) := ⟨List.pairwise_singleton R s, h⟩

theorem At.mono (h : At R P t) (hQ : ∀ s, P s → Q s) : At R Q t := ⟨h.pairwise, hQ _ h.now⟩

theorem At.step [IsTrans σ R] (h : At R P t) (hR : R t.now (f t.now)) (hQ : Q (f t.now)) :
    At R Q (t.step f) := by
  refine ⟨?_, hQ⟩
  rw [states, Traced.step, List.pairwise_append]
  refine ⟨h.pairwise, List.pairwise_singleton R _, fun s hs s' hs' => ?_⟩
  rw [List.mem_singleton.mp hs']
  rcases List.mem_append.mp hs with hpast | hnow
  · have hlast := (List.pairwise_append.mp h.pairwise).2.2 s hpast t.now (List.mem_singleton_self _)
    exact IsTrans.trans _ _ _ hlast hR
  · rw [List.mem_singleton.mp hnow]
    exact hR

end Traced

end Fallible
