import CacheBench.Crew

/-!
# Population

Populating a cache stores the record of each index below the range. The indexes are dealt out among
the workers: worker `w` of `n` takes `w`, `w + n`, `w + 2 * n` and so on, up to its first failure.
-/

namespace CacheBench

/-- Stores the records of `i`, `i + stride` and so on below `range`. -/
def populateFrom (range stride i : Nat) : Work Unit :=
  if h : 0 < stride ∧ i < range then do
    Work.ask (.put (.ofNat i) (.record (.forIndex (.ofNat i))))
    if i + stride < 2 ^ 64 then populateFrom range stride (i + stride)
    else throw (.panic (some "attempt to add with overflow"))
  else pure ()
termination_by range - i

inductive PopulationError
  | noWorkers
  | unspawned (thread : String) (cause : Report)
  | failed (count workers : Nat) (first : WorkerFailure)
deriving DecidableEq

namespace PopulationError

def message : PopulationError → String
  | .noWorkers => "population needs at least one worker"
  | .unspawned thread _ => s!"spawn {thread}"
  | .failed count workers first =>
    s!"population failed in {count} of {workers} workers; first: {first.text}"

def report : PopulationError → Report
  | .unspawned thread cause => .context s!"spawn {thread}" cause
  | e => .text e.message

end PopulationError

namespace Population

def threadName : String := "query-populate-"

def crew {σ : Type} (range : UInt64) (workers : Nat) (s : σ) : Crew σ Unit :=
  Crew.ofTasks threadName workers (populateFrom range.toNat workers) s

def outcome (workers : Nat) : List WorkerFailure → Except PopulationError Unit
  | [] => .ok ()
  | first :: rest => .error (.failed (rest.length + 1) workers first)

end Population

def populate {σ : Type} (env : Environment σ) (range : UInt64) (workers : Nat) (s : σ) :
    Except PopulationError Unit × σ :=
  if workers = 0 then (.error .noWorkers, s)
  else
    let c := (Population.crew range workers s).finish env
    (Population.outcome workers c.report, c.state)

/-- The first worker whose thread cannot be started, and why. -/
def Population.unspawned? (refused? : String → Option Report) (workers : Nat) :
    Option (Nat × Report) :=
  (List.range workers).findSome? fun w => (refused? (threadName ++ toString w)).map (w, ·)

/-- Populates with workers that each need a thread. If one cannot be started, those before it work
to their ends. Their errors are forgotten then, but a panic of theirs is passed on. -/
def populateOn {σ : Type} (refused? : String → Option Report) (env : Environment σ)
    (range : UInt64) (workers : Nat) (s : σ) : Except (Fault PopulationError) Unit × σ :=
  match Population.unspawned? refused? workers with
  | none =>
    let (result, s) := populate env range workers s
    (result.mapError .error, s)
  | some (w, cause) =>
    let tasks := populateFrom range.toNat workers
    let c := (Crew.ofTasks Population.threadName w tasks s).finish env
    if c.panics.isEmpty then
      (.error (.error (.unspawned (Population.threadName ++ toString w) cause)), c.state)
    else (.error (.panic (some "a scoped thread panicked")), c.state)

end CacheBench
