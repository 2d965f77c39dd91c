import CacheBench.Program

/-!
# Crews of workers

A crew is a number of workers on one shared state, each with a piece of work of its own. Any worker
may take the next step. A failure stops only its worker: an error is noted when the worker ends, a
panic when the ended workers are collected, and `Crew.report` lists both by worker.
`runParallel` lets the workers run one after the other, which is one of the possible schedules.
-/

namespace CacheBench

structure WorkerFailure where
  worker : Nat
  thread : String
  report : Report
deriving DecidableEq

namespace WorkerFailure

def text (f : WorkerFailure) : String := s!"{f.thread} (worker {f.worker}): {f.report.line}"

end WorkerFailure

/-- Names that a thread can have. -/
def isThreadName (name : String) : Bool := !name.contains '\x00'

/-- A piece of work under way, or what it came to. -/
inductive Worker (α : Type)
  | running (p : Program (Except (Fault WorkError) α))
  | ended (result : Except (Fault WorkError) α)

structure Crew (σ α : Type) where
  /-- What comes before the number of a worker in the name of its thread. -/
  threadName : String
  workers : List (Worker α)
  /-- The errors so far, in the order in which the workers ended. -/
  errors : List WorkerFailure := []
  state : σ

namespace Crew

variable {σ α : Type}

def ofTasks (threadName : String) (workers : Nat) (task : Nat → Work α) (s : σ) : Crew σ α where
  threadName
  workers := (List.range workers).map fun w => .running (task w).run
  state := s

def failure (c : Crew σ α) (w : Nat) (report : Report) : WorkerFailure :=
  ⟨w, c.threadName ++ toString w, report⟩

/-- What a worker notes itself when it ends. -/
def noted (c : Crew σ α) (w : Nat) : Except (Fault WorkError) α → List WorkerFailure
  | .error (.error e) => [c.failure w e.report]
  | .ok _ | .error (.panic _) => []

def conclude (c : Crew σ α) (w : Nat) (result : Except (Fault WorkError) α) : Crew σ α :=
  { c with workers := c.workers.set w (.ended result), errors := c.errors ++ c.noted w result }

/-- The next step of a worker: a request or draw, or its end. -/
def step (env : Environment σ) (c : Crew σ α) (w : Nat) : Crew σ α :=
  match c.workers[w]? with
  | some (.running (.done result)) => c.conclude w result
  | some (.running p) =>
    let (p, s) := p.step env c.state
    { c with workers := c.workers.set w (.running p), state := s }
  | _ => c

def run (env : Environment σ) (c : Crew σ α) (schedule : List Nat) : Crew σ α :=
  schedule.foldl (step env) c

theorem run_append (env : Environment σ) (c : Crew σ α) (ws ws' : List Nat) :
    c.run env (ws ++ ws') = (c.run env ws).run env ws' := List.foldl_append

def finishWorker (env : Environment σ) (c : Crew σ α) (w : Nat) : Crew σ α :=
  match c.workers[w]? with
  | some (.running p) =>
    let (result, s) := p.run env c.state
    { c with state := s }.conclude w result
  | _ => c

def finish (env : Environment σ) (c : Crew σ α) : Crew σ α :=
  (List.range c.workers.length).foldl (finishWorker env) c

def panicReport (text : Option String) : Report :=
  .text ("worker panicked: " ++ text.getD "unknown panic payload")

def panics (c : Crew σ α) : List WorkerFailure :=
  c.workers.zipIdx.filterMap fun (worker, w) =>
    match worker with
    | .ended (.error (.panic text)) => some (c.failure w (panicReport text))
    | _ => none

def report (c : Crew σ α) : List WorkerFailure :=
  (c.errors ++ c.panics).mergeSort fun f f' => f.worker ≤ f'.worker

end Crew

def runParallel {σ α : Type} (env : Environment σ) (threadName : String) (workers : Nat)
    (task : Nat → Work α) (s : σ) : List WorkerFailure × σ :=
  let c := (Crew.ofTasks threadName workers task s).finish env
  (c.report, c.state)

end CacheBench
