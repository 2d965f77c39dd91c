import CacheBench.Cache
import CacheBench.Cluster.Event

/-!
# Cluster registry

The clusters of one process, found by name. Joining a cluster gives a handle; a cluster exists as
long as a handle on it does, whether or not its holder is still a member. Members of a cluster share
its caches by name. A cache in use outlives its cluster.

A member may listen to its cluster's events. Its channel holds the events that were sent and not
yet taken, and is open as long as the cluster has a listener that sends to it. A listener whose
channel was given up goes away with the next event.
-/

namespace CacheBench

open Std (TreeMap)

abbrev ClusterId := Nat
abbrev HandleId := Nat
abbrev ChannelId := Nat
abbrev CacheId := Nat

structure Listener where
  owner : NodeId
  channel : ChannelId
deriving DecidableEq

structure Cluster where
  name : String
  nextNode : NodeId := 1
  /-- The current members and the seeds they joined with. -/
  members : TreeMap NodeId (List String) := ∅
  listeners : List Listener := []
  caches : TreeMap String CacheId := ∅

/-- What its holder keeps of a membership. -/
structure Handle where
  cluster : ClusterId
  node : NodeId
  left : Bool := false
deriving DecidableEq

structure Registry where
  clusters : TreeMap ClusterId Cluster := ∅
  handles : TreeMap HandleId Handle := ∅
  channels : TreeMap ChannelId (List Event) := ∅
  caches : TreeMap CacheId Cache := ∅
  /-- The next number for a cluster, handle, channel or cache. -/
  next : Nat := 0

namespace Registry

/-! ## Looking up -/

def named? (r : Registry) (name : String) : Option ClusterId :=
  (r.clusters.toList.find? fun (_, c) => c.name = name).map Prod.fst

def holder? (r : Registry) (h : HandleId) : Option (Handle × Cluster) := do
  let handle ← r.handles[h]?
  let cluster ← r.clusters[handle.cluster]?
  return (handle, cluster)

def size? (r : Registry) (h : HandleId) : Option Nat :=
  (r.holder? h).map fun (_, c) => c.members.size

def members? (r : Registry) (h : HandleId) : Option (List (NodeId × List String)) :=
  (r.holder? h).map fun (_, c) => c.members.toList

def isOpen (r : Registry) (ch : ChannelId) : Bool :=
  r.clusters.toList.any fun (_, c) => c.listeners.any fun l => l.channel = ch

/-! ## Membership -/

def setCluster (r : Registry) (id : ClusterId) (c : Cluster) : Registry :=
  { r with clusters := r.clusters.insert id c }

/-- Sends events to a channel, if its receiver still exists. -/
def send (events : List Event) (channels : TreeMap ChannelId (List Event)) (ch : ChannelId) :
    TreeMap ChannelId (List Event) :=
  channels.modify ch (· ++ events)

/-- Tells the listeners of a cluster about a change that was made, and forgets those whose
channel was given up. -/
def publish (r : Registry) (id : ClusterId) (c : Cluster) (change : Change) : Registry :=
  let listeners := c.listeners.filter fun l => r.channels.contains l.channel
  { r.setCluster id { c with listeners } with
    channels := (listeners.map Listener.channel).foldl
      (send (Event.phases c.members.size change)) r.channels }

def ensure (r : Registry) (name : String) : ClusterId × Registry :=
  match r.named? name with
  | some id => (id, r)
  | none => (r.next, { r.setCluster r.next { name } with next := r.next + 1 })

/-- Adds a member to the cluster `id`, which is `c`, under a handle of its own. -/
def enroll (r : Registry) (id : ClusterId) (c : Cluster) (seeds : List String) : Registry :=
  let r := { r with
    handles := r.handles.insert r.next { cluster := id, node := c.nextNode }
    next := r.next + 1 }
  r.publish id
    { c with
      nextNode := c.nextNode + 1
      members := c.members.insert c.nextNode seeds }
    (.joined c.nextNode)

def join (r : Registry) (name : String) (seeds : List String) : HandleId × Registry :=
  let (id, r) := r.ensure name
  (r.next, r.enroll id (r.clusters.getD id { name }) seeds)

/-- Takes the member of a handle out of its cluster. The listeners of the member are gone before
its leave is told. -/
def depart (r : Registry) (h : HandleId) (handle : Handle) (c : Cluster) : Registry :=
  let r := { r with handles := r.handles.insert h { handle with left := true } }
  r.publish handle.cluster
    { c with
      listeners := c.listeners.filter fun l => l.owner ≠ handle.node
      members := c.members.erase handle.node }
    (.left handle.node)

/-- Leaves the cluster; doing it again has no effect. -/
def leave (r : Registry) (h : HandleId) : Registry :=
  match r.holder? h with
  | some (handle, c) => if handle.left then r else r.depart h handle c
  | none => r

/-- Drops a handle. A cluster goes away with its last handle. -/
def forget (r : Registry) (h : HandleId) : Registry :=
  match r.handles[h]? with
  | some handle =>
    let handles := r.handles.erase h
    let kept := handles.toList.any fun (_, other) => other.cluster = handle.cluster
    { r with handles, clusters := if kept then r.clusters else r.clusters.erase handle.cluster }
  | none => r

def release (r : Registry) (h : HandleId) : Registry := (r.leave h).forget h

/-! ## Channels -/

def listen (r : Registry) (handle : Handle) (c : Cluster) : Registry :=
  { r.setCluster handle.cluster
      { c with listeners := c.listeners ++ [{ owner := handle.node, channel := r.next }] } with
    channels := r.channels.insert r.next []
    next := r.next + 1 }

def subscribe (r : Registry) (h : HandleId) : Option (ChannelId × Registry) :=
  (r.holder? h).map fun (handle, c) => (r.next, r.listen handle c)

def drain (r : Registry) (ch : ChannelId) : List Event × Registry :=
  (r.channels.getD ch [], { r with channels := r.channels.modify ch fun _ => [] })

def receive (r : Registry) (ch : ChannelId) : Option Event × Registry :=
  ((r.channels.getD ch []).head?, { r with channels := r.channels.modify ch List.tail })

def close (r : Registry) (ch : ChannelId) : Registry :=
  { r with channels := r.channels.erase ch }

/-! ## Caches -/

/-- The cache of the settings' name, made from the settings if the cluster has none yet. -/
def define (r : Registry) (h : HandleId) (settings : Settings) : Option (CacheId × Registry) :=
  (r.holder? h).map fun (handle, c) =>
    match c.caches[settings.name]? with
    | some id => (id, r)
    | none =>
      let id := r.next
      let r := r.setCluster handle.cluster { c with caches := c.caches.insert settings.name id }
      (id, { r with caches := r.caches.insert id (.ofSettings settings), next := id + 1 })

def cache (r : Registry) (h : HandleId) (name : String) : Option (Except CacheError CacheId) :=
  (r.holder? h).map fun (_, c) =>
    match c.caches[name]? with
    | some id => .ok id
    | none => .error (.unknownCache name)

/-! ## Calls -/

inductive Call
  | join (name : String) (seeds : List String)
  | leave (h : HandleId)
  | release (h : HandleId)
  | subscribe (h : HandleId)
  | drain (ch : ChannelId)
  | receive (ch : ChannelId)
  | close (ch : ChannelId)
  | define (h : HandleId) (settings : Settings)
  | cache (h : HandleId) (name : String)

/-- The registry after a call. Calls on handles that do not exist have no effect. -/
def step (r : Registry) : Call → Registry
  | .join name seeds => (r.join name seeds).2
  | .leave h => r.leave h
  | .release h => r.release h
  | .subscribe h => ((r.subscribe h).map Prod.snd).getD r
  | .drain ch => (r.drain ch).2
  | .receive ch => (r.receive ch).2
  | .close ch => r.close ch
  | .define h settings => ((r.define h settings).map Prod.snd).getD r
  | .cache _ _ => r

def run (r : Registry) (calls : List Call) : Registry := calls.foldl step r

theorem run_append (r : Registry) (calls calls' : List Call) :
    r.run (calls ++ calls') = (r.run calls).run calls' := List.foldl_append

end Registry

end CacheBench
