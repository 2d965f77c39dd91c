import CacheBench.Crew

/-!
# Fanning out

A crew together with the thread that calls it up. The caller starts one thread for each worker, in
order, and then joins them in the same order. A thread calls the task with the number of its worker
in its first turn, and notes the error of its worker when the task ends. A panic is noted by the
caller when it joins the thread, which may be long before other workers end.
-/

namespace CacheBench

structure FanOut (σ α : Type) where
  threadName : String
  /-- The threads started so far. One that has not called its task yet is `none`. -/
  threads : List (Option (Worker α)) := []
  /-- How many threads were joined so far. -/
  joined : Nat := 0
  /-- The failures in the order in which they were noted. -/
  failures : List WorkerFailure := []
  state : σ

namespace FanOut

inductive Turn
  | caller
  | worker (w : Nat)
deriving DecidableEq

variable {σ α : Type}

def start (threadName : String) (s : σ) : FanOut σ α where
  threadName
  state := s

def noted? (threadName : String) (w : Nat) : Except (Fault WorkError) α → Option WorkerFailure
  | .error (.error e) => some ⟨w, threadName ++ toString w, e.report⟩
  | .ok _ | .error (.panic _) => none

/-- What the caller notes when it joins a thread. -/
def collected? (threadName : String) (w : Nat) : Except (Fault WorkError) α → Option WorkerFailure
  | .error (.panic text) => some ⟨w, threadName ++ toString w, Crew.panicReport text⟩
  | .ok _ | .error (.error _) => none

/-- The next step of a thread: the call of its task, a request or draw, or its end. -/
def advance (env : Environment σ) (task : Nat → Work α) (f : FanOut σ α) (w : Nat) : FanOut σ α :=
  match f.threads[w]? with
  | some none => { f with threads := f.threads.set w (some (.running (task w).run)) }
  | some (some (.running (.done result))) =>
    { f with
      threads := f.threads.set w (some (.ended result))
      failures := f.failures ++ (noted? f.threadName w result).toList }
  | some (some (.running p)) =>
    let (p, s) := p.step env f.state
    { f with threads := f.threads.set w (some (.running p)), state := s }
  | some (some (.ended _)) | none => f

/-- The next step of the caller, which waits until the thread to be joined has ended. -/
def call (workers : Nat) (f : FanOut σ α) : FanOut σ α :=
  if f.threads.length < workers then { f with threads := f.threads ++ [none] }
  else match f.threads[f.joined]? with
    | some (some (.ended result)) =>
      { f with
        joined := f.joined + 1
        failures := f.failures ++ (collected? f.threadName f.joined result).toList }
    | _ => f

def step (env : Environment σ) (workers : Nat) (task : Nat → Work α) (f : FanOut σ α) :
    Turn → FanOut σ α
  | .caller => f.call workers
  | .worker w => f.advance env task w

def run (env : Environment σ) (workers : Nat) (task : Nat → Work α) (f : FanOut σ α)
    (turns : List Turn) : FanOut σ α := turns.foldl (step env workers task) f

def returned? (workers : Nat) (f : FanOut σ α) : Option (List WorkerFailure) :=
  if f.joined = workers then some (f.failures.mergeSort fun g g' => g.worker ≤ g'.worker) else none

end FanOut

end CacheBench
