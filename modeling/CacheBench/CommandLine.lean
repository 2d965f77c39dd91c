import CacheBench.Benchmark
import CacheBench.Node.Fleet
import CacheBench.Options
import CacheBench.Options.Duration

/-!
# Command line

The three commands of the program: `node` starts members and keeps them, `run` measures a workload,
`usage` prints the options. `Invocation.read` makes an invocation of command-line words, and
`Invocation.perform` carries it out on a `System`, which is all that a command needs from outside.
-/

namespace CacheBench

structure RunOptions where
  config : Config := .unset
  /-- It has to be given. -/
  workload : Workload := .bulkPut
  threads : Nat := 4
  /-- Nanoseconds. -/
  duration : Nat := 10 ^ 10
  /-- Members next to the node of the benchmark, if not as many as the cluster needs. -/
  localPeers : Option Nat := none
  out : Option String := none

structure NodeOptions where
  config : Config := .unset
  localMembers : Nat := 1

inductive Invocation
  | node (options : NodeOptions)
  | run (options : RunOptions)
  | usage

inductive InvocationError
  | noCommand
  | unknownCommand (name : String)
  | option (e : OptionError)
deriving DecidableEq

namespace InvocationError

def message : InvocationError → String
  | .noCommand => "a command is required: node, run or usage"
  | .unknownCommand name => s!"unrecognized subcommand '{name}'"
  | .option e => e.message

/-- Asking for help is no failure. -/
def exitCode : InvocationError → Nat
  | .option .help => 0
  | _ => 2

end InvocationError

/-! ## Reading -/

def RunOptions.options : List (OptionSpec RunOptions) :=
  Config.options.map (OptionSpec.on fun f o => { o with config := f o.config }) ++ [
    { name := "workload"
      choices := Workload.all.map Workload.optionName
      required := true
      action := .choice Workload.all Workload.optionName fun w o => { o with workload := w } },
    { name := "threads"
      help := "Worker threads calling the workload"
      default := some "4"
      action := .number fun n o => { o with threads := n } },
    { name := "duration"
      help := "Measurement duration"
      default := some "10s"
      action := .value fun s =>
        match Duration.ofText? s with
        | some n => .ok fun o => { o with duration := n }
        | none => .error .malformed },
    { name := "local-peers"
      help := "Extra in-process members started next to the driver"
      action := .number fun n o => { o with localPeers := some n } },
    { name := "out"
      help := "Write the run summary as JSON to this path"
      action := .path fun s o => { o with out := some s } }]

def NodeOptions.options : List (OptionSpec NodeOptions) :=
  Config.options.map (OptionSpec.on fun f o => { o with config := f o.config }) ++ [
    { name := "local-members"
      help := "Members started in this process"
      default := some "1"
      action := .number fun n o => { o with localMembers := n } }]

namespace Invocation

def commands : List String := ["node", "run", "usage", "help"]

def ofCommand (env : Variables) (name : String) (words : List String) :
    Except OptionError Invocation :=
  match name with
  | "node" => (OptionSpec.read NodeOptions.options env {} words).map .node
  | "run" => (OptionSpec.read RunOptions.options env {} words).map .run
  | "usage" => (OptionSpec.read ([] : List (OptionSpec Unit)) env () words).map fun _ => .usage
  | _ => .error .help

/-- The first of the words after `help` that is too much. There is help for one command at a time. -/
def stray? : List String → Option String
  | [] => none
  | w :: words => if w ∈ commands then words.head? else some w

def read (env : Variables) : List String → Except InvocationError Invocation
  | [] => .error .noCommand
  | name :: words =>
    if name = "help" then
      match stray? words with
      | some w => .error (.unknownCommand w)
      | none => .error (.option .help)
    else if name ∈ commands then (ofCommand env name words).mapError .option
    else if name = "--help" ∨ name.startsWith "-h" then .error (.option .help)
    else if name.startsWith "-" then .error (.option (.unknownArgument name))
    else .error (.unknownCommand name)

end Invocation

/-! ## Carrying out -/

structure System (m : Type → Type) where
  files : FileSystem m
  /-- Whether there is a network. -/
  reachable : Bool
  randomSeed : m UInt64
  processors : Nat
  print : String → m Unit
  printError : String → m Unit
  /-- Waits until the user ends the program. -/
  idle : m Unit
  /-- Repeats a step for some nanoseconds, and says how many milliseconds that took. -/
  repeatFor : Nat → (Measurement World → Measurement World) → Measurement World →
    m (Measurement World × Nat)

namespace Report

def indented (blanks : Nat) (text : String) : String :=
  text.replace "\n" (String.ofList ('\n' :: List.replicate blanks ' '))

/-- What the program says when it ends with a report. Causes have a margin, and numbers if there is
more than one of them. -/
def failureText (r : Report) : String :=
  let causes := match r.chain.drop 1 with
    | [] => []
    | [cause] => ["", "Caused by:", "    " ++ indented 4 cause]
    | causes =>
      ["", "Caused by:"] ++ causes.zipIdx.map fun (cause, i) => s!"    {i}: {indented 7 cause}"
  "\n".intercalate (("Error: " ++ r.message) :: causes) ++ "\n"

end Report

namespace Invocation

variable {m : Type → Type} [Monad m]

def configure (sys : System m) (env : Variables) (c : Config) : ExceptT Report m (Config × Host) := do
  let seed ← sys.randomSeed
  match c.finish env seed with
  | .error e => throw (.text e.message)
  | .ok c =>
    let contents ← match c.storeConfig with
      | some path => sys.files.read path
      | none => pure (.ok [])
    return (c, { contents := fun _ => contents, reachable := sys.reachable })

def performNode (sys : System m) (env : Variables) (o : NodeOptions) : ExceptT Report m Unit := do
  if o.localMembers = 0 then throw (.text "--local-members must be > 0")
  let (config, host) ← configure sys env o.config
  match Node.spawn host config o.localMembers {} with
  | (.error e, _) => throw e.report
  | (.ok _, _) => sys.idle

/-- The benchmark of a run with members next to it, once all are ready, if they ever are. A client is
set up after the members. A member is one of those that they wait for. -/
def prepareRun (host : Host) (workers : Nat) (config : Config) (workload : Workload) (peers : Nat) :
    Option (Except Report (Benchmark × World)) :=
  let (spawned, w) := Node.spawn host config peers {}
  let waiting := match spawned with
    | .ok nodes => nodes.any fun n => n.state = .awaitingConvergence
    | .error _ => false
  if config.clientMode && waiting then none
  else
    match config.clientMode, spawned, Benchmark.setUp host workers config { workload } w with
    | true, .error e, _ => some (.error e.report)
    | _, _, (.started _, _, _) => none
    | _, _, (.ended (.error (.error e)), _, _) => some (.error e.report)
    -- no thread is refused here, so this does not happen
    | _, _, (.ended (.error (.panic text)), _, _) => some (.error (Crew.panicReport text))
    | _, .error e, (.ended (.ok ()), _, _) => some (.error e.report)
    | _, .ok _, (.ended (.ok ()), b, w) => some (.ok (b, w))

def performRun (sys : System m) (env : Variables) (o : RunOptions) : ExceptT Report m Unit := do
  let (config, host) ← configure sys env o.config
  let peers := o.localPeers.getD (if config.clientMode then 0 else config.nodes - 1)
  match prepareRun host (2 * sys.processors) config o.workload peers with
  | none => sys.idle
  | some (.error e) => throw e
  | some (.ok (b, w)) =>
    match b.measurement host o.threads config.seed w with
    | .error e => throw e.report
    | .ok (start, round) => do
      let (done, elapsed) ← sys.repeatFor o.duration round start
      match b.summary config.seed done elapsed with
      | .error e => throw e.report
      | .ok summary =>
        match o.out with
        | none => sys.print (summary.toJson ++ "\n")
        | some path => do
          let written ← ExceptT.lift (summary.write sys.files path)
          match written with
          | .error e => throw (.context "write summary" e)
          | .ok () => sys.printError s!"wrote summary: {path}\n"

def perform (sys : System m) (env : Variables) (i : Invocation) : m Nat := do
  let result ← match i with
    | .node o => (performNode sys env o).run
    | .run o => (performRun sys env o).run
    | .usage => do
      sys.print (Config.usage env)
      pure (.ok ())
  match result with
  | .ok () => return 0
  | .error e => do
    sys.printError e.failureText
    return 1

def respond (sys : System m) (env : Variables) (words : List String) : m Nat :=
  match read env words with
  | .ok i => i.perform sys env
  | .error e => do
    if e = .option .help then sys.print (Config.usage env)
    else sys.printError s!"error: {e.message}\n"
    return e.exitCode

end Invocation

end CacheBench
