import CacheBench.Crew
import CacheBench.Generator
import CacheBench.Summary
import CacheBench.Workload

/-!
# Measurements

A measurement repeats the unit of work of a workload on a number of workers, each with a generator
of its own, and counts how the units end. In a `round` every worker does one unit. How many rounds
there are is up to the clock of the caller.
-/

namespace CacheBench

/-- Counts of finished units. A unit with a failed transaction that was rolled back counts as an
operation too. -/
structure Tally where
  operations : Nat := 0
  errors : Nat := 0
  rolledBack : Nat := 0
deriving DecidableEq

namespace Tally

def count (t : Tally) : Except WorkError Outcome → Tally
  | .ok .completed => { t with operations := t.operations + 1 }
  | .ok (.rolledBack _) =>
    { t with operations := t.operations + 1, rolledBack := t.rolledBack + 1 }
  | .error _ => { t with errors := t.errors + 1 }

end Tally

/-- A worker of a measurement, which a panic ends. -/
inductive Runner
  | ready (g : Generator)
  | panicked (text : Option String)

structure Measurement (σ : Type) where
  runners : List Runner
  tally : Tally := {}
  state : σ

namespace Measurement

variable {σ : Type}

def threadName : String := "bench-worker-"

def ofSeed (threads : Nat) (seed : UInt64) (s : σ) : Measurement σ where
  runners := (List.range threads).map fun i => .ready (.forWorker seed (.ofNat i))
  state := s

def turn (service : Service σ) (unit : Work Outcome) (m : Measurement σ) (i : Nat) :
    Measurement σ :=
  match m.runners[i]? with
  | some (.ready g) =>
    let (result, s, g) := Program.run service.withGenerator unit.run (m.state, g)
    match result with
    | .ok outcome =>
      { runners := m.runners.set i (.ready g), tally := m.tally.count (.ok outcome), state := s }
    | .error (.error e) =>
      { runners := m.runners.set i (.ready g), tally := m.tally.count (.error e), state := s }
    | .error (.panic text) => { m with runners := m.runners.set i (.panicked text), state := s }
  | _ => m

def round (service : Service σ) (unit : Work Outcome) (m : Measurement σ) : Measurement σ :=
  (List.range m.runners.length).foldl (turn service unit) m

def rounds (service : Service σ) (unit : Work Outcome) : Nat → Measurement σ → Measurement σ
  | 0, m => m
  | n + 1, m => rounds service unit n (m.round service unit)

def failures (m : Measurement σ) : List WorkerFailure :=
  m.runners.zipIdx.filterMap fun (r, i) =>
    match r with
    | .panicked text => some ⟨i, threadName ++ toString i, Crew.panicReport text⟩
    | .ready _ => none

def summary (m : Measurement σ) (description : String) (seed : UInt64) (elapsed : Nat) : Summary where
  description
  threads := m.runners.length
  seed
  operations := m.tally.operations
  errors := m.tally.errors
  rolledBack := m.tally.rolledBack
  elapsed

end Measurement

end CacheBench
