import Kohaku.Lts.Exec
import Kohaku.Routing.Hosts

/-!
# Rebuilding the host map

`refresh` and `watch` rebuild the host map on the one watcher connection, each as work that runs
while the connection is locked. The system interleaves their single statements with commits of any
other connection and with failures. Every commit makes a snapshot of `projects`; a statement reads
the newest one at the moment it runs, and `PRAGMA data_version` is a function of how many there are.

The server publishes a first map before it listens, so a run starts from a loaded map.
-/

namespace Kohaku.Routing

open Projects

/-- Who runs work on the watcher connection. -/
inductive Caller
  | watcher
  | refresh (n : Nat)
  deriving DecidableEq

/-- Where a caller of `with_watcher` is. -/
inductive Phase
  | idle
  /-- Called, the connection not locked yet. -/
  | waiting
  /-- The connection is locked, nothing read yet. -/
  | locked
  /-- About to load; in `watch` for the version just read. -/
  | reading (version : Option Int)
  /-- The map is built and not yet published. -/
  | loaded (version : Option Int) (map : HostMap)
  /-- The work returned, the connection is still locked. -/
  | done (result : Except Unit (Option Int))
  /-- The connection is free again, the caller not yet resumed. -/
  | returned (result : Except Unit (Option Int))

/-- The connection is locked by a caller in this phase. -/
def Phase.holds : Phase → Bool
  | locked | reading _ | loaded _ _ | done _ => true
  | idle | waiting | returned _ => false

/-- The database, the shared map and the callers. -/
structure Hosts where
  /-- The committed states of `projects` before the current one, oldest first. -/
  past : List (List ProjectRow)
  current : List ProjectRow
  map : HostMap
  lock : Option Caller
  /-- The version the watcher saw last. -/
  seen : Option Int
  phase : Caller → Phase

namespace Hosts

/-- The number of the newest snapshot. -/
def newest (s : Hosts) : Nat := s.past.length

/-- The projects after the `k`-th commit. -/
def snapshot (s : Hosts) (k : Nat) : Option (List ProjectRow) := (s.past ++ [s.current])[k]?

/-- A caller goes on to a phase. -/
def setPhase (s : Hosts) (c : Caller) (phase : Phase) : Hosts :=
  { s with phase := Function.update s.phase c phase }

/-- After the first `refresh`, before anything else runs. -/
def start (base : BaseUrl) (rows : List ProjectRow) : Hosts where
  past := []
  current := rows
  map := load rows base
  lock := none
  seen := none
  phase := fun _ => .idle

/-- What happens to the database and the host map. -/
inductive Act
  /-- The server's writer or another process commits. -/
  | commit (rows : List ProjectRow)
  /-- A tick of `watch`, or a call of `refresh`. -/
  | call (c : Caller)
  | acquire (c : Caller)
  | readVersion (ok : Bool)
  | load (c : Caller) (ok : Bool)
  | publish (c : Caller)
  | release (c : Caller)
  | resume (c : Caller)

/-- One statement; `none` when the caller is elsewhere. `dataVersion n` is what `PRAGMA
data_version` gives after `n` commits. -/
def step (dataVersion : Nat → Int) (base : BaseUrl) (s : Hosts) : Act → Option Hosts
  | .commit rows => some { s with past := s.past ++ [s.current], current := rows }
  | .call c =>
    match s.phase c with
    | .idle => some (s.setPhase c .waiting)
    | _ => none
  | .acquire c =>
    match s.phase c, s.lock with
    | .waiting, none =>
      let first := match c with
        | .watcher => .locked
        | .refresh _ => .reading none
      some { s.setPhase c first with lock := some c }
    | _, _ => none
  | .readVersion ok =>
    match s.phase .watcher with
    | .locked =>
      let version := dataVersion s.newest
      if !ok then some (s.setPhase .watcher (.done (.error ())))
      else if s.seen ≠ some version then some (s.setPhase .watcher (.reading (some version)))
      else some (s.setPhase .watcher (.done (.ok (some version))))
    | _ => none
  | .load c ok =>
    match s.phase c with
    | .reading version =>
      if ok then some (s.setPhase c (.loaded version (Routing.load s.current base)))
      else some (s.setPhase c (.done (.error ())))
    | _ => none
  | .publish c =>
    match s.phase c with
    | .loaded version map => some { s.setPhase c (.done (.ok version)) with map := map }
    | _ => none
  | .release c =>
    match s.phase c with
    | .done result => some { s.setPhase c (.returned result) with lock := none }
    | _ => none
  | .resume c =>
    match s.phase c with
    | .returned result =>
      let seen := match c, result with
        | .watcher, .ok (some version) => some version
        | _, _ => s.seen
      some { s.setPhase c .idle with seen := seen }
    | _ => none

/-- An act with the state before and after it. -/
abbrev Event := Lts.Step Hosts Act

/-- The work of the caller ends, and without an error. -/
def succeeds (e : Event) (c : Caller) : Prop :=
  e.label = .release c ∧ ∃ version, e.pre.phase c = .done (.ok version)

end Hosts

end Kohaku.Routing
