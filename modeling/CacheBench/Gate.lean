import CacheBench.Cluster.Registry

/-!
# Convergence

A gate is released once, by the first reason to do so, and stays released. A `Starter` is a member
on its way to convergence: it joins a cluster, subscribes to its events, then samples the size, and
its gate is released by a sample or by a later event that shows enough members. Subscribing before
sampling leaves no moment in which a join could go unseen.

`Convergence` runs any number of starters, one small move at a time.
-/

namespace CacheBench

open Std (TreeMap)

structure Gate where
  target : Nat
  released : Bool := false
deriving DecidableEq

namespace Gate

/-- Releases the gate. The first component says whether it was closed. -/
def release (g : Gate) : Bool × Gate := (!g.released, { g with released := true })

/-- Lets an event release the gate if it reports a change, already made, to enough members. -/
def observe (g : Gate) (e : Event) : Bool × Gate :=
  if e.phase = .pre || e.members < g.target then (false, g) else g.release

inductive Call
  | observe (e : Event)
  | release

def step (g : Gate) : Call → Bool × Gate
  | .observe e => g.observe e
  | .release => g.release

def run (g : Gate) : List Call → List Bool × Gate
  | [] => ([], g)
  | c :: cs =>
    let (b, g) := g.step c
    let (bs, g) := run g cs
    (b :: bs, g)

theorem run_append (g : Gate) (cs cs' : List Call) :
    g.run (cs ++ cs') = ((g.run cs).1 ++ ((g.run cs).2.run cs').1, ((g.run cs).2.run cs').2) := by
  induction cs generalizing g with
  | nil => rfl
  | cons c cs ih => simp [run, ih]

def observeAll (g : Gate) (es : List Event) : Gate := (g.run (es.map .observe)).2

end Gate

structure Starter where
  handle : HandleId
  gate : Gate
  channel : Option ChannelId := none
  sampled : Option Nat := none
deriving DecidableEq

namespace Starter

def join (r : Registry) (name : String) (seeds : List String) (target : Nat) : Starter × Registry :=
  let (handle, r) := r.join name seeds
  ({ handle, gate := { target } }, r)

def subscribe (s : Starter) (r : Registry) : Starter × Registry :=
  match s.channel, r.subscribe s.handle with
  | none, some (ch, r) => ({ s with channel := some ch }, r)
  | _, _ => (s, r)

/-- Samples the size of the cluster, once and not before subscribing. -/
def sample (s : Starter) (r : Registry) : Starter :=
  match s.channel, s.sampled, r.size? s.handle with
  | some _, none, some n =>
    { s with sampled := some n, gate := if s.gate.target ≤ n then s.gate.release.2 else s.gate }
  | _, _, _ => s

def deliver (s : Starter) (r : Registry) : Starter × Registry :=
  match s.channel with
  | some ch =>
    match r.receive ch with
    | (some e, r) => ({ s with gate := (s.gate.observe e).2 }, r)
    | (none, r) => (s, r)
  | none => (s, r)

def deliverAll (s : Starter) (r : Registry) : Starter × Registry :=
  match s.channel with
  | some ch =>
    let (es, r) := r.drain ch
    ({ s with gate := s.gate.observeAll es }, r)
  | none => (s, r)

def giveUp (s : Starter) (r : Registry) : Registry :=
  let r := r.release s.handle
  match s.channel with
  | some ch => r.close ch
  | none => r

end Starter

structure Convergence where
  registry : Registry := {}
  starters : TreeMap Nat Starter := ∅
  next : Nat := 0

namespace Convergence

inductive Move
  | join (name : String) (seeds : List String) (target : Nat)
  | subscribe (i : Nat)
  | sample (i : Nat)
  | deliver (i : Nat)
  | leave (i : Nat)
  | release (i : Nat)

def update (c : Convergence) (i : Nat) (f : Starter → Registry → Starter × Registry) : Convergence :=
  match c.starters[i]? with
  | some s =>
    let (s, registry) := f s c.registry
    { c with registry, starters := c.starters.insert i s }
  | none => c

def step (c : Convergence) : Move → Convergence
  | .join name seeds target =>
    let (s, registry) := Starter.join c.registry name seeds target
    { registry, starters := c.starters.insert c.next s, next := c.next + 1 }
  | .subscribe i => c.update i Starter.subscribe
  | .sample i => c.update i fun s r => (s.sample r, r)
  | .deliver i => c.update i Starter.deliver
  | .leave i => c.update i fun s r => (s, r.leave s.handle)
  | .release i => c.update i fun s r => (s, r.release s.handle)

def run (c : Convergence) (moves : List Move) : Convergence := moves.foldl step c

theorem run_append (c : Convergence) (moves moves' : List Move) :
    c.run (moves ++ moves') = (c.run moves).run moves' := List.foldl_append

end Convergence

end CacheBench
