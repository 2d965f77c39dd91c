import CacheBench.Gate
import CacheBench.Net.Port
import CacheBench.Wire.Client

/-!
# The world of nodes

What the nodes of one process share: the cluster registry, the endpoints that members serve, and
the connections of clients to them. A `Host` is what the process finds outside: files, whether there
is a network, and which steps of a start and which threads fail for reasons of their own.
-/

namespace CacheBench

open Std (TreeMap)

/-- Addresses that every host has: those of its loopback device, and the ones for any address. -/
def Ip.isHere : Ip → Bool
  | .v4 x => x.a = 127 || x = ⟨0, 0, 0, 0⟩
  | .v6 x => x.groups = [0, 0, 0, 0, 0, 0, 0, 1] || x.isAny

/-- Whether a listener on one address takes the connections to another. A listener for any address
of version 6 takes those of version 4 too. -/
def Ip.covers (a b : Ip) : Bool :=
  match a.plain, b.plain with
  | .v4 x, .v4 y => x = y || x = ⟨0, 0, 0, 0⟩
  | .v4 _, .v6 _ => false
  | .v6 x, y => .v6 x = y || x.isAny

/-- Whether two listeners exclude each other. -/
def SocketAddress.clashes (a b : SocketAddress) : Bool :=
  a.port = b.port && (a.ip.covers b.ip || b.ip.covers a.ip)

/-- The steps of a start that can fail even though nothing is wrong with what they were given. -/
inductive StartStep
  | join (cluster : String)
  | define (cache : String)
  | subscribe
  /-- The thread that passes the events on. -/
  | listener
  | bind (address : SocketAddress)
  | nonBlocking
  | runtime (name : String)
  | register
deriving DecidableEq

/-- What was being done when the step failed, where that is said. -/
def StartStep.context? : StartStep → Option String
  | .join cluster => some s!"join cluster {cluster}"
  | .listener => some "spawn topology listener"
  | .nonBlocking => some "set endpoint listener non-blocking"
  | .runtime name => some s!"build {name} runtime"
  | .register => some "register endpoint listener"
  | .define _ | .subscribe | .bind _ => none

structure Host where
  /-- What a file holds, or why it cannot be read. -/
  contents : String → Except String Bytes
  /-- Whether the devices of the host are up. -/
  reachable : Bool
  /-- Why a step fails, if it does. -/
  setback? : StartStep → Option Report := fun _ => none
  /-- Why a worker's thread of a name cannot be started, if it cannot. -/
  refusedThread? : String → Option Report := fun _ => none

/-- Why the host binds no listener to an address, if it does not. -/
def Host.refusal? (host : Host) (ip : Ip) : Option NetworkRefusal :=
  if !host.reachable then ip.isolatedBind?
  else if ip.plain.isHere then none
  else some .notAssignable

structure Listening where
  address : SocketAddress
  caches : TreeMap String CacheId

/-- A client's connection to an endpoint, with reply bytes that were not read yet. -/
structure Link where
  server : SocketAddress
  selected : String := plainCache
  inbound : Bytes := []

abbrev ClientId := Nat

structure World where
  registry : Registry := {}
  endpoints : List Listening := []
  /-- Addresses in use by others. -/
  occupied : List SocketAddress := []
  links : TreeMap ConnectionId Link := ∅
  clients : TreeMap ClientId Client := ∅
  /-- The next number for a connection or client. -/
  next : Nat := 0

/-- Where the calls on a cache of a node go: to a cache of the process, or through a client. -/
inductive CacheHandle
  | shared (id : CacheId)
  | remote (id : ClientId)
deriving DecidableEq

namespace World

/-! ## Endpoints -/

def held (w : World) : List SocketAddress := w.occupied ++ w.endpoints.map Listening.address

def bind (host : Host) (a : SocketAddress) (w : World) : Binding Unit × World :=
  match host.refusal? a.ip with
  | some reason => (.failed reason.message, w)
  | none =>
    if a.port ≠ 0 && w.held.any a.clashes then (.inUse, w)
    else match host.setback? (.bind a) with
      | some cause => (.failed cause.message, w)
      | none => (.bound (), w)

def listen (w : World) (address : SocketAddress) (caches : TreeMap String CacheId) : World :=
  { w with endpoints := w.endpoints ++ [{ address, caches }] }

def unlisten (w : World) (address : SocketAddress) : World :=
  { w with
    endpoints := w.endpoints.filter fun l => l.address ≠ address
    links := w.links.filter fun _ link => link.server ≠ address }

/-! ## Connections -/

def endpoint? (w : World) (server : SocketAddress) : Option Listening :=
  w.endpoints.find? fun l => l.address.port = server.port && l.address.ip.covers server.ip

def connect (host : Host) (server : SocketAddress) (w : World) :
    Except NetworkRefusal ConnectionId × World :=
  if !host.reachable then (.error server.isolatedConnect, w)
  else match w.endpoint? server with
    | some l =>
      (.ok w.next,
        { w with links := w.links.insert w.next { server := l.address }, next := w.next + 1 })
    | none => (.error .refused, w)

/-- Lets the endpoint answer a frame of a connection. -/
def serveLink (conn : ConnectionId) (w : World) (f : Frame) : World :=
  match w.links[conn]? with
  | none => w
  | some link =>
    let id? (name : String) : Option CacheId := (w.endpoint? link.server).bind fun l => l.caches[name]?
    let lookup (name : String) : Option Cache := (id? name).bind fun id => w.registry.caches[id]?
    match serveFrame (fun _ => Report.malformedText) lookup link.selected f with
    | none => w
    | some served =>
      let caches := match id? link.selected, served.cache? with
        | some id, some c => w.registry.caches.insert id c
        | _, _ => w.registry.caches
      { w with
        registry := { w.registry with caches }
        links := w.links.insert conn
          { link with
            selected := served.selected
            inbound := link.inbound ++ served.reply.encode } }

def send (conn : ConnectionId) (b : Bytes) (w : World) : World :=
  (Frame.decodeAll b).1.foldl (serveLink conn) w

def receive (conn : ConnectionId) (w : World) : Except TransportFault Frame × World :=
  match w.links[conn]? with
  | none => (.error .closed, w)
  | some link =>
    match Frame.decode link.inbound with
    | .complete f rest => (.ok f, { w with links := w.links.insert conn { link with inbound := rest } })
    | .incomplete | .malformed => (.error .broken, w)

def close (conn : ConnectionId) (w : World) : World := { w with links := w.links.erase conn }

def network (host : Host) : Network World where
  connect := connect host
  send := send
  receive := receive
  close := close

/-! ## Caches -/

/-- A client for a cache that the servers serve, kept in the world. -/
def openClient (host : Host) (w : World) (name : String) (servers : List SocketAddress) :
    Except CacheError ClientId × World :=
  match Client.connect (network host) name servers w with
  | (.ok c, w) => (.ok w.next, { w with clients := w.clients.insert w.next c, next := w.next + 1 })
  | (.error e, w) => (.error e, w)

/-- The cache behind a handle as its callers see it. -/
def service (host : Host) (h : CacheHandle) : Service World := fun r w =>
  match h with
  | .shared id =>
    match w.registry.caches[id]? with
    | some c =>
      -- the cache is taken out first, so that nothing else refers to it while it changes
      let registry := { w.registry with caches := w.registry.caches.erase id }
      let (x, c) := Cache.service r c
      (x, { w with registry := { registry with caches := registry.caches.insert id c } })
    | none => (.error (.error .finishedTransaction), w)
  | .remote id =>
    match w.clients[id]? with
    | some c =>
      let (x, c, w) := Client.service (network host) r (c, w)
      (x, { w with clients := w.clients.insert id c })
    | none => (.error (.error (.transport .closed)), w)

/-- What an observer sees of a cache of a cluster. -/
structure Inspection where
  /-- Members other than the observer. -/
  others : Nat
  cache : Cache

def inspect (w : World) (cluster cacheName : String) : Except CacheError Inspection × World :=
  let (h, r) := w.registry.join cluster []
  let others := (r.size? h).getD 1 - 1
  let seen := match r.cache h cacheName with
    | some (.ok id) => .ok { others, cache := r.caches.getD id (.ofSettings { name := cacheName }) }
    | some (.error e) => .error e
    | none => .error (.unknownCache cacheName)
  (seen, { w with registry := r.release h })

def name? (w : World) : CacheHandle → Option String
  | .shared id => w.registry.caches[id]?.map Cache.name
  | .remote id => w.clients[id]?.map Client.name

end World

end CacheBench
