import CacheBench.Net.Address
import CacheBench.Report

/-!
# Port negotiation

An endpoint tries the ports from its base on, as many as its budget allows and the port space has.
A port in use moves on to the next one; any other refusal ends the search. Running out of ports is
no error.
-/

namespace CacheBench

inductive Binding (β : Type)
  | bound (b : β)
  | inUse
  | failed (text : String)

structure Negotiated (β : Type) where
  address : SocketAddress
  bound : β
  /-- Ports tried, including the one that was bound. -/
  attempts : Nat

inductive PortError
  | unresolved (host : String) (fault : LookupFault)
  | refused (address : SocketAddress) (text : String)
deriving DecidableEq

def PortError.report : PortError → Report
  | .unresolved host fault =>
    .context ("resolve bind host " ++ Text.quoted host) (.text fault.message)
  | .refused address text => .context s!"bind endpoint on {address}" (.text text)

def leastAttempts : Nat := 10

def attemptBudget (nodes : Nat) : Nat := max nodes leastAttempts

def bindHost (host : String) : Except PortError Ip :=
  match Ip.lookup host.toList with
  | .ok (ip, _) => .ok ip
  | .error fault => .error (.unresolved host fault)

def candidatePorts (base : UInt16) (budget : Nat) : List Nat :=
  List.range' base.toNat (min budget (2 ^ 16 - base.toNat))

section

variable {β σ : Type}

/-- Tries ports in order. The state is that of `bind`. -/
def tryPorts (ip : Ip) (base : UInt16) (bind : SocketAddress → σ → Binding β × σ) :
    List Nat → σ → Except PortError (Option (Negotiated β)) × σ
  | [], s => (.ok none, s)
  | port :: ports, s =>
    let address : SocketAddress := { ip, port := .ofNat port }
    match bind address s with
    | (.bound bound, s) => (.ok (some ⟨address, bound, port - base.toNat + 1⟩), s)
    | (.inUse, s) => tryPorts ip base bind ports s
    | (.failed text, s) => (.error (.refused address text), s)

def negotiate (ip : Ip) (base : UInt16) (budget : Nat)
    (bind : SocketAddress → σ → Binding β × σ) (s : σ) :
    Except PortError (Option (Negotiated β)) × σ :=
  tryPorts ip base bind (candidatePorts base budget) s

end

end CacheBench
