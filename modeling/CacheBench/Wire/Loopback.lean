import CacheBench.Wire.Client

/-!
# Loopback

The network between the clients and one endpoint of a process. The bytes that a client sends are
answered by the endpoint at once; the bytes of its replies wait at the connection until the client
reads them. Where the process has no loopback device, no connection can be opened.
-/

namespace CacheBench

open Std (TreeMap)

structure Loopback where
  endpoint : Endpoint
  reachable : Bool := true
  /-- The bytes of replies that were not read yet, by connection. -/
  inbound : TreeMap ConnectionId Bytes := ∅
  next : ConnectionId := 0

namespace Loopback

def connect (server : SocketAddress) (l : Loopback) :
    Except NetworkRefusal ConnectionId × Loopback :=
  if l.reachable then
    (.ok l.next, { l with inbound := l.inbound.insert l.next [], next := l.next + 1 })
  else (.error server.isolatedConnect, l)

def send (l : Loopback) (conn : ConnectionId) (b : Bytes) : Loopback :=
  let (frames, _, _) := Frame.decodeAll b
  let (replies, endpoint) := l.endpoint.run (frames.map (conn, ·))
  { l with
    endpoint
    inbound := l.inbound.modify conn (· ++ Frame.encodeAll (replies.filterMap id)) }

def receive (l : Loopback) (conn : ConnectionId) : Except TransportFault Frame × Loopback :=
  match Frame.decode (l.inbound.getD conn []) with
  | .complete f rest => (.ok f, { l with inbound := l.inbound.insert conn rest })
  | .incomplete | .malformed => (.error .broken, l)

def close (l : Loopback) (conn : ConnectionId) : Loopback :=
  { l with endpoint := l.endpoint.disconnect conn, inbound := l.inbound.erase conn }

def network : Network Loopback where
  connect := connect
  send conn b l := l.send conn b
  receive conn l := l.receive conn
  close conn l := l.close conn

end Loopback

end CacheBench
