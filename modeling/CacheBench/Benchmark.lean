import CacheBench.Measurement
import CacheBench.Node

/-!
# Benchmarks

A benchmark binds one workload to a node of its own. Setting up starts the node, finds the cache of
the workload and prepares it; tearing down stops the node. The configuration of the last set-up that
got as far as its cache stays in the description.

The node may have to wait for its cluster to converge, which other nodes of the process bring about.
`Benchmark.begin` comes as far as the started node, and `Benchmark.goOn` goes on from there as soon
as the node is ready.
-/

namespace CacheBench

structure Benchmark where
  workload : Workload
  config : Option Config := none
  node : Option Node := none
  /-- The cache of a workload that is prepared. -/
  cache : Option CacheHandle := none

inductive BenchmarkError
  | alreadySetUp
  | needsMember (w : Workload)
  | node (e : NodeError)
  | population (e : PopulationError)
  | notSetUp
  | noThreads
  | died (workers : Nat) (first : WorkerFailure)
  | work (e : WorkError)
deriving DecidableEq

namespace BenchmarkError

def report : BenchmarkError → Report
  | .alreadySetUp => .text "driver is already set up"
  | .needsMember w =>
    .text s!"remote client does not support transactions ({w.name} needs an embedded member)"
  | .node e => e.report
  | .population e => e.report
  | .notSetUp => .text "driver is not set up"
  | .noThreads => .text "--threads must be > 0"
  | .died workers first => .text s!"{workers} benchmark worker(s) died; first: {first.text}"
  | .work e => e.report

end BenchmarkError

/-- How far a set-up has come. -/
inductive Progress
  /-- It has a node, which is ready or waits. -/
  | started (n : Node)
  | ended (result : Except (Fault BenchmarkError) Unit)

def Progress.result? : Progress → Option (Except (Fault BenchmarkError) Unit)
  | .started _ => none
  | .ended result => some result

namespace Benchmark

def description (b : Benchmark) : String :=
  b.workload.name ++ (b.config.map Config.description).getD ""

/-! ## Setting up and tearing down -/

/-- Begins to set up. Nothing is stored in the benchmark yet. -/
def begin (host : Host) (config : Config) (b : Benchmark) (w : World) : Progress × World :=
  if b.node.isSome then (.ended (.error (.error .alreadySetUp)), w)
  else if config.clientMode && b.workload.isTransactional then
    (.ended (.error (.error (.needsMember b.workload))), w)
  else
    match (Node.ofConfig config).start host config w with
    | (.error e, _, w) => (.ended (.error (.error (.node e))), w)
    | (.ok (), n, w) => (.started n, w)

/-- Prepares the workload on a node that is ready, where `answers` stands behind the caches.
Population draws no random numbers. -/
def prepareOver (answers : CacheHandle → Service World) (host : Host) (workers : Nat)
    (config : Config) (b : Benchmark) (n : Node) (w : World) :
    Except (Fault BenchmarkError) Unit × Benchmark × World :=
  match n.cache host w b.workload.cacheName with
  | (.error e, n, w) => (.error (.error (.node e)), b, (n.stop w).2)
  | (.ok cache, n, w) =>
    let b := { b with node := some n, config := some config }
    let env := (answers cache).withGenerator
    match b.workload.prepare host.refusedThread? env config workers (w, .seeded 0) with
    | (.error e, w, _) => (.error (e.map .population), b, w)
    | (.ok (), w, _) => (.ok (), { b with cache := some cache }, w)

/-- Goes on with a set-up that has its node, unless the node still waits. -/
def goOn (answers : CacheHandle → Service World) (host : Host) (workers : Nat) (config : Config)
    (b : Benchmark) (n : Node) (w : World) : Progress × Benchmark × World :=
  let (n, w) := n.resume w
  if n.state = .awaitingConvergence then (.started n, b, w)
  else
    let (result, b, w) := b.prepareOver answers host workers config n w
    (.ended result, b, w)

/-- Sets up with a number of population workers, as far as that goes without other nodes. The caches
are those of this world. Servers outside of it may fail where these do not. -/
def setUp (host : Host) (workers : Nat) (config : Config) (b : Benchmark) (w : World) :
    Progress × Benchmark × World :=
  match b.begin host config w with
  | (.started n, w) => b.goOn (World.service host) host workers config n w
  | (.ended result, w) => (.ended result, b, w)

def tearDown (b : Benchmark) (w : World) : Benchmark × World :=
  let w := match b.node with
    | some n => (n.stop w).2
    | none => w
  ({ b with node := none, cache := none }, w)

/-! ## Running -/

def unit? (b : Benchmark) : Option (CacheHandle × Work Outcome) := do
  return (← b.cache, b.workload.test (← b.config))

def test (host : Host) (b : Benchmark) (g : Generator) (w : World) :
    Except (Fault BenchmarkError) Outcome × Generator × World :=
  match b.unit? with
  | none => (.error (.error .notSetUp), g, w)
  | some (cache, unit) =>
    let (result, w, g) := Program.run (World.service host cache).withGenerator unit.run (w, g)
    (result.mapError (Fault.map .work), g, w)

def measurement (host : Host) (threads : Nat) (seed : UInt64) (b : Benchmark) (w : World) :
    Except BenchmarkError (Measurement World × (Measurement World → Measurement World)) :=
  if threads = 0 then .error .noThreads
  else
    match b.unit? with
    | none => .error .notSetUp
    | some (cache, unit) =>
      .ok (.ofSeed threads seed w, Measurement.round (World.service host cache) unit)

def summary (b : Benchmark) (seed : UInt64) (m : Measurement World) (elapsed : Nat) :
    Except BenchmarkError Summary :=
  match m.failures with
  | [] => .ok (m.summary b.description seed elapsed)
  | first :: rest => .error (.died (rest.length + 1) first)

end Benchmark

end CacheBench
