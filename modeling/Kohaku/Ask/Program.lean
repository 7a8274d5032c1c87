import Mathlib.Data.List.Sublists

/-!
# Programs that ask their environment

A program returns, or asks one operation and goes on with the answer. Nothing is said about who
answers, so what holds of every run holds for every state of the environment, and whatever else is
served between two operations. `Runs` are the complete runs with all that was asked and answered.
`Asks` says which operation is asked after a part of a run, so it also covers a run that is left in
the middle. `within` puts a program under a timer that can end it at every operation; what it does
before that is what the program does (`asks_of_within`, `runs_of_within`).
-/

namespace Ask

/-- A program over the operations `E`; the answers to `e` have the type `R e`. -/
inductive Program (E : Type) (R : E → Type) (α : Type)
  | pure (a : α)
  | ask (e : E) (next : R e → Program E R α)

/-- An operation with its answer. -/
abbrev Event (E : Type) (R : E → Type) := Σ e, R e

namespace Program

variable {E : Type} {R : E → Type} {α β : Type}

/-- Runs a program and goes on with what it returns. -/
def bind : Program E R α → (α → Program E R β) → Program E R β
  | pure a, f => f a
  | ask e next, f => ask e fun r => (next r).bind f

instance : Monad (Program E R) where
  pure := pure
  bind := bind

/-- Asks one operation and returns the answer. -/
def perform (e : E) : Program E R (R e) := ask e pure

/-- The program asks and is answered `h`, and then returns `a`. -/
def Runs : Program E R α → List (Event E R) → α → Prop
  | pure b, h, a => h = [] ∧ a = b
  | ask e next, h, a => ∃ r h', h = ⟨e, r⟩ :: h' ∧ (next r).Runs h' a

/-- After `h` the program asks `e`. -/
def Asks : Program E R α → List (Event E R) → E → Prop
  | pure _, _, _ => False
  | ask e' next, h, e => h = [] ∧ e = e' ∨ ∃ r h', h = ⟨e', r⟩ :: h' ∧ (next r).Asks h' e

/-- The program asks only operations with the property. -/
def Only (p : E → Prop) (x : Program E R α) : Prop := ∀ h e, x.Asks h e → p e

variable {x : Program E R α} {f : α → Program E R β} {h : List (Event E R)} {a : α}
  {b : β} {e e' : E}

/-! ## Returning, asking and going on -/

@[simp] theorem runs_pure {a' : α} : Runs (Pure.pure a' : Program E R α) h a ↔ h = [] ∧ a = a' :=
  Iff.rfl

@[simp] theorem asks_pure : ¬Asks (Pure.pure a : Program E R α) h e := id

theorem runs_perform {g : R e → Program E R α} :
    Runs (perform e >>= g) h a ↔ ∃ r h', h = ⟨e, r⟩ :: h' ∧ (g r).Runs h' a := Iff.rfl

theorem asks_perform {g : R e' → Program E R α} :
    Asks (perform e' >>= g) h e ↔ h = [] ∧ e = e' ∨ ∃ r h', h = ⟨e', r⟩ :: h' ∧ (g r).Asks h' e :=
      Iff.rfl

theorem runs_bind : Runs (x >>= f) h b ↔ ∃ h₁ h₂ a, h = h₁ ++ h₂ ∧ x.Runs h₁ a ∧
    (f a).Runs h₂ b := by
  induction x generalizing h with
  | pure a =>
    constructor
    · intro hrun
      exact ⟨[], h, a, rfl, ⟨rfl, rfl⟩, hrun⟩
    · rintro ⟨h₁, h₂, a', rfl, ⟨rfl, rfl⟩, hrun⟩
      exact hrun
  | ask e next ih =>
    constructor
    · rintro ⟨r, h', rfl, hrun⟩
      obtain ⟨h₁, h₂, a, rfl, hx, hf⟩ := (ih r).mp hrun
      exact ⟨⟨e, r⟩ :: h₁, h₂, a, rfl, ⟨r, h₁, rfl, hx⟩, hf⟩
    · rintro ⟨h₁, h₂, a, rfl, ⟨r, h', rfl, hx⟩, hf⟩
      exact ⟨r, h' ++ h₂, rfl, (ih r).mpr ⟨h', h₂, a, rfl, hx, hf⟩⟩

theorem asks_bind : Asks (x >>= f) h e ↔
    x.Asks h e ∨ ∃ h₁ h₂ a, h = h₁ ++ h₂ ∧ x.Runs h₁ a ∧ (f a).Asks h₂ e := by
  induction x generalizing h with
  | pure a =>
    constructor
    · intro hask
      exact .inr ⟨[], h, a, rfl, ⟨rfl, rfl⟩, hask⟩
    · rintro (hask | ⟨h₁, h₂, a', rfl, ⟨rfl, rfl⟩, hask⟩)
      · cases hask
      · exact hask
  | ask e' next ih =>
    constructor
    · rintro (⟨rfl, rfl⟩ | ⟨r, h', rfl, hask⟩)
      · exact .inl (.inl ⟨rfl, rfl⟩)
      · rcases (ih r).mp hask with hx | ⟨h₁, h₂, a, rfl, hx, hf⟩
        · exact .inl (.inr ⟨r, h', rfl, hx⟩)
        · exact .inr ⟨⟨e', r⟩ :: h₁, h₂, a, rfl, ⟨r, h₁, rfl, hx⟩, hf⟩
    · rintro ((⟨rfl, rfl⟩ | ⟨r, h', rfl, hx⟩) | ⟨h₁, h₂, a, rfl, ⟨r, h', rfl, hx⟩, hf⟩)
      · exact .inl ⟨rfl, rfl⟩
      · exact .inr ⟨r, h', rfl, (ih r).mpr (.inl hx)⟩
      · exact .inr ⟨r, h' ++ h₂, rfl, (ih r).mpr (.inr ⟨h', h₂, a, rfl, hx, hf⟩)⟩

/-- A last computation asks nothing. -/
theorem asks_bind_pure {g : α → β} : Asks (x >>= fun a => Pure.pure (g a)) h e ↔ x.Asks h e := by
  rw [asks_bind]
  constructor
  · rintro (hask | ⟨h₁, h₂, a, -, -, hask⟩)
    · exact hask
    · exact absurd hask asks_pure
  · exact .inl

theorem runs_bind_pure {g : α → β} :
    Runs (x >>= fun a => Pure.pure (g a)) h b ↔ ∃ a, x.Runs h a ∧ b = g a := by
  rw [runs_bind]
  constructor
  · rintro ⟨h₁, h₂, a, rfl, hx, rfl, rfl⟩
    exact ⟨a, by rwa [List.append_nil], rfl⟩
  · rintro ⟨a, hx, rfl⟩
    exact ⟨h, [], a, (List.append_nil h).symm, hx, rfl, rfl⟩

/-! ## Everything asked -/

/-- What is in a run was asked. -/
theorem Runs.asks {h₂ : List (Event E R)} {r : R e} (hrun : x.Runs (h ++ ⟨e, r⟩ :: h₂) a) :
    x.Asks h e := by
  induction x generalizing h with
  | pure a' => exact absurd hrun.1 (by simp)
  | ask e' next ih =>
    obtain ⟨r', h', heq, hrun⟩ := hrun
    cases h with
    | nil =>
      cases heq
      exact .inl ⟨rfl, rfl⟩
    | cons ev h =>
      cases heq
      exact .inr ⟨r', h, rfl, ih r' hrun⟩

theorem Only.mem_of_runs {p : E → Prop} (honly : x.Only p) (hrun : x.Runs h a) :
    ∀ ev ∈ h, p ev.1 := by
  intro ev hev
  obtain ⟨h₁, h₂, rfl⟩ := List.append_of_mem hev
  exact honly h₁ ev.1 (Runs.asks (r := ev.2) hrun)

theorem only_pure {p : E → Prop} : Only p (Pure.pure a : Program E R α) :=
  fun _ _ hask => absurd hask asks_pure

theorem only_perform {p : E → Prop} (he : p e) : Only p (perform e : Program E R (R e)) := by
  rintro h e' (⟨-, rfl⟩ | ⟨r, h', -, hask⟩)
  · exact he
  · exact absurd hask asks_pure

theorem only_bind {p : E → Prop} (hx : x.Only p) (hf : ∀ a, (f a).Only p) : Only p (x >>= f) := by
  intro h e hask
  rcases asks_bind.mp hask with hask | ⟨h₁, h₂, a, -, -, hask⟩
  · exact hx h e hask
  · exact hf a h₂ e hask

theorem Only.mono {p q : E → Prop} (honly : x.Only p) (hpq : ∀ e, p e → q e) : x.Only q :=
  fun h e hask => hpq e (honly h e hask)

/-! ## One environment -/

/-- The run in which each operation has a fixed answer. -/
def runWith (answer : (e : E) → R e) : Program E R α → List (Event E R) × α
  | pure a => ([], a)
  | ask e next =>
    let (h, a) := (next (answer e)).runWith answer
    (⟨e, answer e⟩ :: h, a)

theorem runs_runWith (answer : (e : E) → R e) (x : Program E R α) :
    x.Runs (x.runWith answer).1 (x.runWith answer).2 := by
  induction x with
  | pure a => exact ⟨rfl, rfl⟩
  | ask e next ih => exact ⟨answer e, _, rfl, ih (answer e)⟩

/-! ## A program under a timer -/

/-- The program, as long as the timer has not run down: it is looked at before each operation and
before the end. -/
def within (timer : E) (elapsed : R timer → Bool) : Program E R α → Program E R (Option α)
  | pure a => ask timer fun t => pure (if elapsed t then none else some a)
  | ask e next => ask timer fun t =>
    if elapsed t then pure none else ask e fun r => (next r).within timer elapsed

variable {timer : E} {elapsed : R timer → Bool}

/-- What a program asks under a timer, it asks without one. -/
theorem asks_of_within (hask : (x.within timer elapsed).Asks h e) (hne : e ≠ timer) :
    ∃ h', h'.Sublist h ∧ x.Asks h' e := by
  induction x generalizing h with
  | pure a =>
    rcases hask with ⟨-, rfl⟩ | ⟨t, h', -, hask⟩
    · exact absurd rfl hne
    · cases hask
  | ask e' next ih =>
    rcases hask with ⟨-, rfl⟩ | ⟨t, h', rfl, hask⟩
    · exact absurd rfl hne
    · dsimp only at hask
      split at hask
      · cases hask
      · rcases hask with ⟨rfl, rfl⟩ | ⟨r, h'', rfl, hask⟩
        · exact ⟨[], List.nil_sublist _, .inl ⟨rfl, rfl⟩⟩
        · obtain ⟨h', hsub, hask⟩ := ih r hask
          exact ⟨⟨e', r⟩ :: h', (hsub.cons_cons _).cons _, .inr ⟨r, h', rfl, hask⟩⟩

/-- What a program returns under a timer that has not run down, it returns without one. -/
theorem runs_of_within (hrun : (x.within timer elapsed).Runs h (some a)) :
    ∃ h', h'.Sublist h ∧ x.Runs h' a := by
  induction x generalizing h with
  | pure a' =>
    obtain ⟨t, h', rfl, rfl, heq⟩ := hrun
    split at heq
    · cases heq
    · cases heq
      exact ⟨[], List.nil_sublist _, rfl, rfl⟩
  | ask e' next ih =>
    obtain ⟨t, h', rfl, hrun⟩ := hrun
    dsimp only at hrun
    split at hrun
    · cases hrun.2
    · obtain ⟨r, h'', rfl, hrun⟩ := hrun
      obtain ⟨h', hsub, hrun⟩ := ih r hrun
      exact ⟨⟨e', r⟩ :: h', (hsub.cons_cons _).cons _, r, h', rfl, hrun⟩

end Program

end Ask
