import CacheBench.Net.Address

/-!
# Hosts without a network

Where all devices of a host are down, loopback included, no connection can be opened, and what is
said of an attempt depends on the address. Listeners can still bind: to any address of version 4,
but of version 6 only to the one that stands for all addresses.
-/

namespace CacheBench

inductive NetworkRefusal
  | invalid
  | notAssignable
  | unreachable
  | refused
deriving DecidableEq

namespace NetworkRefusal

def message : NetworkRefusal → String
  | .invalid => "Invalid argument (os error 22)"
  | .notAssignable => "Cannot assign requested address (os error 99)"
  | .unreachable => "Network is unreachable (os error 101)"
  | .refused => "Connection refused (os error 111)"

end NetworkRefusal

namespace Ipv6

def isAny (x : Ipv6) : Bool := x.groups.all (· = 0)

def isMulticast (x : Ipv6) : Bool := 0xff00 ≤ x.groups.headD 0

/-- The version 4 address that is meant. -/
def mapped? (x : Ipv6) : Option Ipv4 :=
  match x.groups with
  | [0, 0, 0, 0, 0, 0xffff, g, h] =>
    some ⟨.ofNat (g.toNat / 256), .ofNat g.toNat, .ofNat (h.toNat / 256), .ofNat h.toNat⟩
  | _ => none

end Ipv6

def Ip.plain : Ip → Ip
  | .v4 x => .v4 x
  | .v6 x => (x.mapped?.map Ip.v4).getD (.v6 x)

/-- Why an isolated host does not bind to an address, if it does not. -/
def Ip.isolatedBind? (ip : Ip) : Option NetworkRefusal :=
  match ip.plain with
  | .v4 _ => none
  | .v6 x =>
    if x.isAny then none
    else if x.isMulticast || x.isLinkLocal then some .invalid
    else some .notAssignable

/-- Why an isolated host does not connect to an address. -/
def SocketAddress.isolatedConnect (server : SocketAddress) : NetworkRefusal :=
  match server.ip.plain with
  | .v4 _ => .unreachable
  | .v6 x =>
    if x.isMulticast then .unreachable
    else if x.isLinkLocal && server.scope = 0 then .invalid
    else .notAssignable

end CacheBench
