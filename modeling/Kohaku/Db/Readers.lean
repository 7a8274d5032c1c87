import Kohaku.Lts.Exec
import Kohaku.Pool.Ledger

/-!
# The reader pool

`Db::read` takes a permit of a semaphore, hands a closure that owns the permit to the blocking pool,
and there takes a connection out of the `Vec` of readers. A call is modelled by how far it has come,
with the closure's local variables as a stack: leaving the closure, by returning or by a panic,
drops them in the reverse order of their declaration. The semaphore may serve waiting calls in any
order. A permit is released only after the reader is back, because it is declared first, and so a
call that holds a permit and no reader finds one (`read_permit_finds_reader`).
-/

namespace Kohaku.Readers

/-- Read connections per process. -/
def readers : Nat := 4

/-- What all calls share: the permits left in the semaphore and the pool. -/
structure Shared (γ : Type) where
  readPermits : Nat
  pool : List γ

/-- A local variable of the closure. -/
inductive Local (γ : Type)
  /-- `_permit`. -/
  | permit
  /-- `conn`, a `Pooled`. -/
  | conn (c : γ)

/-- How `work` ended. -/
inductive Ending
  | returned
  | panicked

/-- How far a call has come. -/
inductive Phase (γ : Type)
  /-- In `acquire_owned`. -/
  | waiting
  /-- The semaphore has given it a permit, and the future has not been polled since. -/
  | granted
  /-- The closure, which owns the permit, is queued in the blocking pool. -/
  | handedOff
  /-- The closure is at `Pooled::take`. -/
  | taking (locals : List (Local γ))
  /-- The closure is in `work`. -/
  | working (locals : List (Local γ))
  /-- The closure is being left. -/
  | leaving (ending : Ending) (locals : List (Local γ))
  | finished

/-- What can happen to a call. -/
inductive Action
  | grant
  | poll
  | dropFuture
  /-- The runtime drops the closure without running it. -/
  | discard
  | start
  | take
  | leave (ending : Ending)
  | dropLocal

section
variable {γ : Type}

/-- `Drop` of a local variable: a permit goes back to the semaphore, a reader to the pool. -/
def Local.drop (shared : Shared γ) : Local γ → Shared γ
  | .permit => { shared with readPermits := shared.readPermits + 1 }
  | .conn c => { shared with pool := shared.pool ++ [c] }

/-- `Pooled::take`: the last reader of the `Vec`. Without one it panics, and the closure is left. -/
def pooledTake (shared : Shared γ) (locals : List (Local γ)) : Phase γ × Shared γ :=
  match shared.pool.getLast? with
  | some c => (.working (.conn c :: locals), { shared with pool := shared.pool.dropLast })
  | none => (.leaving .panicked locals, shared)

/-- What an action does to a call and to what is shared; `none` when it cannot happen. The last
local variable declared stands first. -/
def Action.run (shared : Shared γ) : Action → Phase γ → Option (Phase γ × Shared γ)
  | .grant, .waiting =>
    if 0 < shared.readPermits then some
      (.granted, { shared with readPermits := shared.readPermits - 1 }) else none
  | .poll, .granted => some (.handedOff, shared)
  | .dropFuture, .waiting => some (.finished, shared)
  | .dropFuture, .granted => some (.finished, Local.permit.drop shared)
  -- the closure goes on without its caller
  | .dropFuture, phase => some (phase, shared)
  | .discard, .handedOff => some (.finished, Local.permit.drop shared)
  | .start, .handedOff => some (.taking [.permit], shared)
  | .take, .taking locals => some (pooledTake shared locals)
  | .leave ending, .working locals => some (.leaving ending locals, shared)
  | .dropLocal, .leaving ending (x :: locals) => some (.leaving ending locals, x.drop shared)
  | .dropLocal, .leaving _ [] => some (.finished, shared)
  | _, _ => none

/-- The calls made so far and what they share. -/
structure State (γ : Type) where
  shared : Shared γ
  calls : List (Phase γ)

/-- `Db::new`. -/
def State.new (conns : Vector γ readers) : State γ := ⟨⟨readers, conns.toList⟩, []⟩

/-- What happens next. -/
inductive Label
  /-- A further call of `read`. -/
  | read
  | act (i : Nat) (action : Action)

/-- One step of the pool. -/
def step (s : State γ) : Label → Option (State γ)
  | .read => some { s with calls := s.calls ++ [.waiting] }
  | .act i action => do
    let phase ← s.calls[i]?
    let (phase, shared) ← action.run s.shared phase
    return ⟨shared, s.calls.set i phase⟩

/-! ## What a call holds -/

/-- What the closure's local variables hold. -/
def holdingOf : List (Local γ) → Pool.Holding γ
  | [] => ⟨0, []⟩
  | .permit :: locals => { holdingOf locals with permits := (holdingOf locals).permits + 1 }
  | .conn c :: locals => { holdingOf locals with items := c :: (holdingOf locals).items }

/-- What a call holds of the pool, by where it is. -/
def Phase.holding : Phase γ → Pool.Holding γ
  | .waiting => ⟨0, []⟩
  | .granted => ⟨1, []⟩
  | .handedOff => ⟨1, []⟩
  | .taking locals => holdingOf locals
  | .working locals => holdingOf locals
  | .leaving _ locals => holdingOf locals
  | .finished => ⟨0, []⟩

/-- The call's closure has a connection. -/
def Phase.holdsConn (phase : Phase γ) : Bool := !phase.holding.items.isEmpty

/-- The call's closure has started and not ended. -/
def Phase.running : Phase γ → Bool
  | .taking _ => true
  | .working _ => true
  | .leaving _ _ => true
  | _ => false

/-- The local variables there are at each point of the closure. -/
def Phase.Ok : Phase γ → Prop
  | .taking locals => locals = [.permit]
  | .working locals => ∃ c, locals = [.conn c, .permit]
  | .leaving _ locals => (∃ c, locals = [.conn c, .permit]) ∨ locals = [.permit] ∨ locals = []
  | _ => True

/-- A call never has a reader without its permit. -/
theorem Phase.Ok.covered {phase : Phase γ} (h : phase.Ok) :
    phase.holding.items.length ≤ phase.holding.permits := by
  cases phase with
  | waiting | granted | handedOff | finished => exact Nat.zero_le _
  | taking locals =>
    subst h
    exact Nat.zero_le _
  | working locals =>
    obtain ⟨c, rfl⟩ := h
    exact Nat.le_refl 1
  | leaving ending locals =>
    obtain ⟨c, rfl⟩ | rfl | rfl := h
    · exact Nat.le_refl 1
    · exact Nat.zero_le _
    · exact Nat.zero_le _

/-- What the ledger sees of an action: permits and readers go from one side to the other. -/
structure Exchange (shared shared' : Shared γ) (phase phase' : Phase γ) : Prop where
  permits : shared'.readPermits + phase'.holding.permits = shared.readPermits +
    phase.holding.permits
  conns : (shared'.pool ++ phase'.holding.items).Perm (shared.pool ++ phase.holding.items)

theorem Exchange.of_holding_eq {shared : Shared γ} {phase phase' : Phase γ}
    (h : phase'.holding = phase.holding) : Exchange shared shared phase phase' := by
  refine ⟨by rw [h], by rw [h]⟩

/-- Dropping the last variable gives back what it held. -/
theorem exchange_drop (shared : Shared γ) (ending : Ending) (x : Local γ)
    (locals : List (Local γ)) :
    Exchange shared (x.drop shared) (.leaving ending (x :: locals)) (.leaving ending locals) := by
  cases x with
  | permit => exact ⟨Nat.add_right_comm _ _ _, List.Perm.refl _⟩
  | conn c =>
    refine ⟨rfl, ?_⟩
    simp only [Local.drop, Phase.holding, holdingOf, List.append_assoc, List.singleton_append]
    exact List.Perm.refl _

theorem exchange_pooledTake (shared : Shared γ) (locals : List (Local γ)) :
    Exchange shared (pooledTake shared locals).2 (.taking locals) (pooledTake shared locals).1 := by
  unfold pooledTake
  split
  next c hlast =>
    refine ⟨rfl, ?_⟩
    have hpool : shared.pool.dropLast ++ [c] = shared.pool := List.dropLast_append_getLast? c hlast
    change (shared.pool.dropLast ++ ([c] ++ (holdingOf locals).items)).Perm
      (shared.pool ++ (holdingOf locals).items)
    rw [← List.append_assoc, hpool]
  next => exact .of_holding_eq rfl

theorem ok_pooledTake (shared : Shared γ) {locals : List (Local γ)} (h : locals = [.permit]) :
    (pooledTake shared locals).1.Ok := by
  subst h
  unfold pooledTake
  split
  next c _ => exact ⟨c, rfl⟩
  next => exact .inr (.inl rfl)

/-- Every action is an exchange, and keeps the local variables in order. -/
theorem Action.run_spec {action : Action} {shared shared' : Shared γ} {phase phase' : Phase γ}
    (h : action.run shared phase = some (phase', shared')) (hok : phase.Ok) :
    Exchange shared shared' phase phase' ∧ phase'.Ok := by
  unfold Action.run at h
  -- the cases of the definition, in its order
  split at h
  next =>
    split at h
    next hpos =>
      cases h
      refine ⟨⟨?_, List.Perm.refl _⟩, trivial⟩
      exact Nat.sub_add_cancel hpos
    next => cases h
  next =>
    cases h
    exact ⟨.of_holding_eq rfl, trivial⟩
  next =>
    cases h
    exact ⟨.of_holding_eq rfl, trivial⟩
  next =>
    cases h
    exact ⟨⟨rfl, List.Perm.refl _⟩, trivial⟩
  next =>
    cases h
    exact ⟨.of_holding_eq rfl, hok⟩
  next =>
    cases h
    exact ⟨⟨rfl, List.Perm.refl _⟩, trivial⟩
  next =>
    cases h
    exact ⟨.of_holding_eq rfl, rfl⟩
  next locals =>
    have hexchange := exchange_pooledTake shared locals
    have hlocals := ok_pooledTake shared hok
    rw [Option.some.inj h] at hexchange hlocals
    exact ⟨hexchange, hlocals⟩
  next ending locals =>
    cases h
    exact ⟨.of_holding_eq rfl, .inl hok⟩
  next ending x locals =>
    cases h
    refine ⟨exchange_drop shared ending x locals, ?_⟩
    obtain ⟨c, hlocals⟩ | hlocals | hlocals := hok
    · exact .inr (.inl (List.cons.inj hlocals).2)
    · exact .inr (.inr (List.cons.inj hlocals).2)
    · exact absurd hlocals (List.cons_ne_nil _ _)
  next =>
    cases h
    exact ⟨.of_holding_eq rfl, trivial⟩
  next => cases h

/-! ## Runs -/

/-- The permits and readers of a state. -/
def State.ledger (s : State γ) : Pool.Ledger γ :=
  ⟨s.shared.readPermits, s.shared.pool, s.calls.map Phase.holding⟩

/-- The invariant: the books are balanced, and every closure has the local variables of where it
is. -/
structure Inv (conns : List γ) (s : State γ) : Prop where
  balanced : s.ledger.Balanced conns
  ok : ∀ phase ∈ s.calls, phase.Ok

theorem inv_new (conns : Vector γ readers) : Inv conns.toList (State.new conns) := by
  refine ⟨?_, List.forall_mem_nil _⟩
  have hstart := Pool.Ledger.Balanced.start conns.toList
  rwa [Vector.length_toList] at hstart

theorem inv_step {conns : List γ} {s s' : State γ} {l : Label} (H : Inv conns s)
    (h : step s l = some s') : Inv conns s' := by
  cases l with
  | read =>
    cases h
    refine ⟨?_, ?_⟩
    · have happend := H.balanced.append_empty
      simp only [State.ledger, List.map_append, List.map_singleton] at happend ⊢
      exact happend
    · intro phase hphase
      rcases List.mem_append.mp hphase with hphase | hphase
      · exact H.ok phase hphase
      · rw [List.mem_singleton.mp hphase]
        trivial
  | act i action =>
    simp only [step, Option.bind_eq_bind, Option.bind_eq_some_iff, Option.pure_def,
      Option.some.injEq] at h
    obtain ⟨phase, hphase, ⟨phase', shared'⟩, hrun, rfl⟩ := h
    obtain ⟨hexchange, hok⟩ := Action.run_spec hrun (H.ok phase (List.mem_of_getElem? hphase))
    refine ⟨?_, ?_⟩
    · have hholding : s.ledger.holdings[i]? = some phase.holding := by
        rw [State.ledger, List.getElem?_map, hphase, Option.map_some]
      have hset := H.balanced.exchange hholding hexchange.permits hexchange.conns hok.covered
      simp only [State.ledger, List.map_set] at hset ⊢
      exact hset
    · intro phase hmem
      rcases List.mem_or_eq_of_mem_set hmem with hmem | rfl
      · exact H.ok phase hmem
      · exact hok

theorem inv_of_exec {conns : Vector γ readers} {h : List (Lts.Step (State γ) Label)} {s : State γ}
    (H : Lts.Exec step (State.new conns) h s) : Inv conns.toList s :=
  H.invariant (Inv conns.toList) (inv_new conns) inv_step

end

/-- In every run of any number of calls, whichever of them are dropped or panic: a call at
`Pooled::take` finds a reader in the pool, at most `readers` closures have a connection, and when no
closure is running all connections are in the pool. -/
theorem read_permit_finds_reader {γ : Type} (conns : Vector γ readers)
    {h : List (Lts.Step (State γ) Label)} {s : State γ} (H : Lts.Exec step (State.new conns) h s) :
    (∀ locals, .taking locals ∈ s.calls → s.shared.pool ≠ []) ∧
      s.calls.countP Phase.holdsConn ≤ readers ∧
      ((∀ phase ∈ s.calls, phase.running = false) → s.shared.pool.Perm conns.toList) := by
  have hinv := inv_of_exec H
  refine ⟨fun locals hmem => ?_, ?_, fun hidle => ?_⟩
  · have hlocals : locals = [.permit] := hinv.ok _ hmem
    subst hlocals
    exact hinv.balanced.free_ne_nil (List.mem_map_of_mem hmem) Nat.one_pos
  · have hcount := hinv.balanced.countP_le
    rw [State.ledger, List.countP_map, Vector.length_toList] at hcount
    exact hcount
  · refine hinv.balanced.perm_of_items_nil ?_
    intro holding hmem
    obtain ⟨phase, hphase, rfl⟩ := List.mem_map.mp hmem
    have hstill := hidle phase hphase
    cases phase with
    | waiting | granted | handedOff | finished => rfl
    | taking locals | working locals | leaving ending locals => cases hstill

/-- Two calls: one is dropped when it has its permit, the other panics in its work after its caller
has gone. -/
theorem read_permit_finds_reader_panicked :
    (Lts.last (State.new #v[0, 1, 2, 3]) (Lts.history step (State.new #v[0, 1, 2, 3])
      [.read, .read, .act 0 .grant, .act 1 .grant, .act 0 .poll, .act 1 .dropFuture, .act 0 .start,
        .act 0 .take,
        .act 0 .dropFuture, .act 0 (.leave .panicked), .act 0 .dropLocal, .act 0 .dropLocal,
        .act 0 .dropLocal])).shared.pool.Perm [0, 1, 2, 3] :=
  (read_permit_finds_reader #v[0, 1, 2, 3] (Lts.Exec.of_history (by decide))).2.2 (by decide)

end Kohaku.Readers
