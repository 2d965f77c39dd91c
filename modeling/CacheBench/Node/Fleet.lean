import CacheBench.Node

/-!
# Fleets of nodes

Any number of nodes in one world, each under a name. `Fleet.step` is one call on one node, and
`Fleet.run` a list of calls in the order in which they take effect. A member whose start has to wait
goes on when the events of its cluster reach it, which is a call of its own.
-/

namespace CacheBench

open Std (TreeMap)

namespace Node

/-! ## Members side by side -/

def stopAll (ns : List Node) (w : World) : World := ns.foldl (fun w n => (n.stop w).2) w

def resumeAll : List Node → World → List Node × World
  | [], w => ([], w)
  | n :: ns, w =>
    let (n, w) := n.resume w
    let (ns, w) := resumeAll ns w
    (n :: ns, w)

def startMembers (host : Host) (config : Config) :
    Nat → World → List (Except NodeError Unit × Node) × World
  | 0, w => ([], w)
  | count + 1, w =>
    let (result, n, w) := ({ role := .member } : Node).start host config w
    let (rest, w) := startMembers host config count w
    ((result, n) :: rest, w)

def firstError? (results : List (Except NodeError Unit)) : Option NodeError :=
  results.findSome? fun
    | .error e => some e
    | .ok () => none

/-- Starts members of one configuration. If one of them cannot start, none is kept. -/
def spawn (host : Host) (config : Config) (count : Nat) (w : World) :
    Except NodeError (List Node) × World :=
  let (started, w) := startMembers host config count w
  let nodes := started.map Prod.snd
  match firstError? (started.map Prod.fst) with
  | some e => (.error e, stopAll nodes w)
  | none =>
    let (nodes, w) := resumeAll nodes w
    (.ok nodes, w)

end Node

/-! ## Nodes by name -/

structure Fleet where
  world : World := {}
  nodes : TreeMap String Node := ∅

namespace Fleet

def drop (name : String) (f : Fleet) : Fleet :=
  match f.nodes[name]? with
  | some n => { world := (n.stop f.world).2, nodes := f.nodes.erase name }
  | none => f

/-- Keeps a node under a name, in place of the one that had it. -/
def place (name : String) (n : Node) (f : Fleet) : Fleet :=
  let f := f.drop name
  { f with nodes := f.nodes.insert name n }

def update {α : Type} (name : String) (call : Node → World → α × Node × World) (f : Fleet) :
    Option α × Fleet :=
  match f.nodes[name]? with
  | some n =>
    let (a, n, world) := call n f.world
    (some a, { world, nodes := f.nodes.insert name n })
  | none => (none, f)

def start (host : Host) (config : Config) (name : String) (f : Fleet) :
    Option (Except NodeError Unit) × Fleet :=
  f.update name (Node.start host config)

def resume (name : String) (f : Fleet) : Fleet := (f.update name fun n w => ((), n.resume w)).2

def stop (name : String) (f : Fleet) : Fleet := (f.update name fun n w => ((), n.stop w)).2

def cache (host : Host) (cacheName : String) (name : String) (f : Fleet) :
    Option (Except NodeError CacheHandle) × Fleet :=
  f.update name fun n w => n.cache host w cacheName

def placeAll (names : List String) (ns : List Node) (f : Fleet) : Fleet :=
  (names.zip ns).foldl (fun f (name, n) => f.place name n) f

/-- The addresses that others are listening on from now on. -/
def occupy (addresses : List SocketAddress) (f : Fleet) : Fleet :=
  { f with world := { f.world with occupied := addresses } }

/-- Lets all events reach their nodes. -/
def settle (f : Fleet) : Fleet := f.nodes.keys.foldl (fun f name => f.resume name) f

inductive Call
  | create (name : String) (role : Role)
  | start (name : String) (host : Host) (config : Config)
  | resume (name : String)
  | cache (name : String) (host : Host) (cacheName : String)
  | stop (name : String)
  | drop (name : String)
  | occupy (addresses : List SocketAddress)

/-- The fleet after a call. Calls on nodes that do not exist have no effect. -/
def step (f : Fleet) : Call → Fleet
  | .create name role => f.place name { role }
  | .start name host config => (f.start host config name).2
  | .resume name => f.resume name
  | .cache name host cacheName => (f.cache host cacheName name).2
  | .stop name => f.stop name
  | .drop name => f.drop name
  | .occupy addresses => f.occupy addresses

def run (f : Fleet) (calls : List Call) : Fleet := calls.foldl step f

theorem run_append (f : Fleet) (calls calls' : List Call) :
    f.run (calls ++ calls') = (f.run calls).run calls' := List.foldl_append

end Fleet

end CacheBench
