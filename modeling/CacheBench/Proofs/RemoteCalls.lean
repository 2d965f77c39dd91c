import CacheBench.Proofs.CommandCodec
import CacheBench.Proofs.Replies
import CacheBench.Proofs.Sessions
import CacheBench.Wire.Loopback

/-!
# Calls through a client

`EndpointCall.remote` is a call through a client of one cache, and `EndpointCall.direct` one that
somebody makes on a served cache itself. `Client.runCalls` makes a list of both kinds over the wire
and `Served.run` makes all of them on the caches themselves. If everything that is written and
answered comes through the codec, the two return the same and leave the same caches.
-/

namespace CacheBench

open Std (TreeMap)

/-! ## One exchange -/

namespace Loopback

variable {l : Loopback} {conn : ConnectionId} {f reply : Frame}

/-- The connection is open, and everything that came on it was read. -/
def Idle (l : Loopback) (conn : ConnectionId) : Prop := l.inbound[conn]? = some []

theorem send_encode (hb : f.Unbroken) (hl : f.Fits) :
    l.send conn f.encode = { l with
      endpoint := (l.endpoint.receive conn f).2
      inbound := l.inbound.modify conn
        (· ++ Frame.encodeAll (l.endpoint.receive conn f).1.toList) } := by
  simp only [send, Frame.decodeAll_encode hb hl, List.map_cons, List.map_nil, Endpoint.run]
  cases (l.endpoint.receive conn f).1 <;> rfl

/-- The network after a frame on the connection was answered and the answer was read. -/
def answered (l : Loopback) (conn : ConnectionId) (f : Frame) : Loopback :=
  { l with
    endpoint := (l.endpoint.receive conn f).2
    inbound := (l.inbound.modify conn
      (· ++ Frame.encodeAll (l.endpoint.receive conn f).1.toList)).insert conn [] }

theorem idle_answered (l : Loopback) (conn : ConnectionId) (f : Frame) :
    (l.answered conn f).Idle conn := TreeMap.getElem?_insert_self

theorem exchange (hidle : l.Idle conn) (hb : f.Unbroken) (hl : f.Fits)
    (hreply : (l.endpoint.receive conn f).1 = some reply) (hb' : reply.Unbroken)
    (hl' : reply.Fits) :
    network.receive conn (network.send conn f.encode l) = (.ok reply, l.answered conn f) := by
  have hinbound : (l.send conn f.encode).inbound.getD conn [] = reply.encode := by
    rw [send_encode hb hl, TreeMap.getD_eq_getD_getElem?, TreeMap.getElem?_modify_self, hidle,
      hreply]
    exact List.append_nil reply.encode
  have hread := Frame.decode_encode hb' hl' []
  rw [List.append_nil] at hread
  simp only [network, receive, hinbound, hread]
  rw [send_encode hb hl]
  rfl

end Loopback

/-! ## One call -/

namespace Client

section

variable {ν : Type} {net : Network ν} {c : Client} {s s₁ s' : ν} {conn : ConnectionId}

/-- A call on a pooled connection is one exchange, after which the connection is back. -/
theorem call_of_pool {pool : List ConnectionId} {f reply : Frame} (hpool : c.pool = conn :: pool)
    (hexchange : net.receive conn (net.send conn f.encode s) = (.ok reply, s'))
    (hreply : ¬ reply.isError) : c.call net s (some f) = (.ok reply, c, s') := by
  have hanswered : ({ c with pool } : Client).answered conn reply = (.finished (.ok reply), c) := by
    have hback : ({ c with pool } : Client).release conn = c := by
      rw [release, ← hpool]
    cases reply with
    | error _ => exact absurd rfl hreply
    | simple _ | integer _ | bulk _ | array _ | null => simp only [answered, hback]
  simp only [call, advances, advance, checkout, hpool, hexchange, hanswered]

/-- A call without a request opens a connection and selects the cache on it. -/
theorem call_none {server : SocketAddress}
    (hserver : c.servers[c.opened % c.servers.length]? = some server)
    (hconnect : net.connect server s = (.ok conn, s₁))
    (hexchange : net.receive conn (net.send conn (Command.use c.name).toFrame.encode s₁) =
      (.ok .done, s')) :
    c.call net s none =
      (.ok .done, { c with opened := c.opened + 1, pool := conn :: c.pool }, s') := by
  simp only [call, advances, advance, checkout, hserver, hconnect, hexchange, expectDone_done,
    selected, release]

theorem perform_eq_call {r : Request} {cmd : Command} (hcmd : command? r = some cmd)
    (hne : ∀ b, r = .putAll b → ¬ b.isEmpty) :
    c.perform net s r =
      ((c.call net s (some cmd.toFrame)).1.bind (read r), (c.call net s (some cmd.toFrame)).2) := by
  cases r with
  | begin | txGet _ _ | txPut _ _ _ | commit _ | rollback _ | drop _ => cases hcmd
  | putAll b =>
      cases hcmd
      simp only [perform, command?, if_neg (hne b rfl)]
  | get _ | put _ _ | query _ | size =>
      cases hcmd
      rfl

theorem perform_of_isEmpty {b : Batch} (hb : b.isEmpty) :
    c.perform net s (.putAll b) = (.ok (), c, s) := by
  simp only [perform, command?, if_pos hb]

theorem request?_of_command? {r : Request} {cmd : Command} (hcmd : command? r = some cmd) :
    cmd.request? = some r := by
  cases r with
  | begin | txGet _ _ | txPut _ _ _ | commit _ | rollback _ | drop _ => cases hcmd
  | get _ | put _ _ | putAll _ | query _ | size =>
      cases hcmd
      rfl

end

/-- The client has a connection to the endpoint on which it has selected the cache. -/
structure Connected (name : String) (c : Client) (l : Loopback) (conn : ConnectionId) : Prop where
  pool : c.pool = [conn]
  idle : l.Idle conn
  selected : l.endpoint.selected conn = name

variable {name : String} {c : Client} {l : Loopback} {conn : ConnectionId} {cache : Cache}

/-- A call with a frame that is read as a command does on the cache what the command does. -/
theorem Connected.call (h : Connected name c l conn)
    (hcache : l.endpoint.caches[name]? = some cache) {f reply : Frame} {cmd : Command} {r : Request}
    {cache' : Cache} (hf : Command.ofFrame f = .ok (some cmd)) (hr : cmd.request? = some r)
    (happly : cmd.apply cache = (.ok reply, cache')) (hb : f.Unbroken) (hfits : f.Fits)
    (hreply : ¬ reply.isError) (hb' : reply.Unbroken) (hfits' : reply.Fits) :
    ∃ l', c.call Loopback.network l (some f) = (.ok reply, c, l') ∧ Connected name c l' conn ∧
      ∀ n : String, l'.endpoint.caches[n]? =
        if name = n then some cache' else l.endpoint.caches[n]? := by
  have hserved : l.endpoint.caches[l.endpoint.selected conn]? = some cache := by
    rw [h.selected, hcache]
  have hreceive := Endpoint.receive_apply hf hr hserved happly
  have hexchange := Loopback.exchange h.idle hb hfits (congrArg Prod.fst hreceive) hb' hfits'
  refine ⟨l.answered conn f, call_of_pool h.pool hexchange hreply,
    ⟨h.pool, l.idle_answered conn _, ?_⟩, fun n => ?_⟩
  · rw [Loopback.answered, hreceive, Endpoint.selected_write, h.selected]
  · rw [Loopback.answered, hreceive, Endpoint.caches_write, h.selected]

/-- A call through a client is the call on the cache. -/
theorem Connected.perform (h : Connected name c l conn)
    (hcache : l.endpoint.caches[name]? = some cache) {r : Request} {cmd : Command}
    (hcmd : command? r = some cmd) (htravels : cmd.Travels)
    (hanswer : ∀ a, (cache.step r).1 = .ok a → r.Travels a) :
    ∃ l', c.perform Loopback.network l r = ((cache.step r).1, c, l') ∧ Connected name c l' conn ∧
      ∀ n : String, l'.endpoint.caches[n]? =
        if name = n then some (cache.step r).2 else l.endpoint.caches[n]? := by
  have hr := request?_of_command? hcmd
  by_cases hempty : ∃ b, r = .putAll b ∧ b.isEmpty
  · obtain ⟨b, rfl, hb⟩ := hempty
    have hsame : (cache.step (.putAll b)).2 = cache := by
      simp only [Cache.step, Store.putAll, if_pos hb]
    refine ⟨l, perform_of_isEmpty hb, h, fun n => ?_⟩
    rw [hsame]
    split
    · rename_i hn
      rw [← hn, hcache]
    · rfl
  have hne : ∀ b, r = .putAll b → ¬ b.isEmpty := fun b hr hb => hempty ⟨b, hr, hb⟩
  obtain ⟨a, ha⟩ := Command.exists_step_eq_ok hr cache
  obtain ⟨cmd', r', hf, hr', hsame⟩ :=
    htravels.exists_ofFrame hr fun b hb => hne b (by cases hb; cases hr; rfl)
  have happly : cmd'.apply cache = (.ok (r.replyOf a), (cache.step r).2) := by
    rw [hsame, Command.apply_eq hr, ha]
    rfl
  have hreply : ¬ (r.replyOf a).isError := by
    rw [Request.isError_replyOf]
    exact Bool.false_ne_true
  obtain ⟨l', hcall, hconnected, hcaches⟩ :=
    h.call hcache hf hr' happly cmd.unbroken_toFrame htravels.fits hreply
      (Frame.unbroken_replyOf r a) (Request.fits_replyOf (hanswer a ha))
  refine ⟨l', ?_, hconnected, hcaches⟩
  have hread := read_replyOf (by rw [hcmd]; rfl) (hanswer a ha)
  rw [perform_eq_call hcmd hne, hcall, ha]
  exact Prod.ext hread rfl

/-- Connecting to a cache that is served goes well. -/
theorem exists_connect {servers : List SocketAddress} (hservers : servers ≠ [])
    (hreachable : l.reachable) (hname : name ∈ l.endpoint.caches)
    (hfits : (utf8 name).length < 2 ^ 63) :
    ∃ c l' conn, connect Loopback.network name servers l = (.ok c, l') ∧
      Connected name c l' conn ∧ l'.endpoint.caches = l.endpoint.caches := by
  obtain ⟨server, rest, rfl⟩ := List.exists_cons_of_ne_nil hservers
  let opened : Loopback :=
    { l with inbound := l.inbound.insert l.next [], next := l.next + 1 }
  have hconnect : Loopback.network.connect server l = (.ok l.next, opened) := if_pos hreachable
  have hidle : opened.Idle l.next := TreeMap.getElem?_insert_self
  have hreceive : opened.endpoint.receive l.next (Command.use name).toFrame =
      (some .done, opened.endpoint.select l.next name) :=
    Endpoint.receive_use (Command.ofFrame_toFrame_use name) hname
  have hexchange := Loopback.exchange hidle (Command.use name).unbroken_toFrame
    (Command.Travels.use hfits).fits (congrArg Prod.fst hreceive)
    Frame.unbroken_done Frame.fits_done
  have hserver : (server :: rest)[0 % (server :: rest).length]? = some server := by
    rw [Nat.zero_mod]
    rfl
  have hcall := call_none (c := { name, servers := server :: rest }) hserver hconnect hexchange
  refine ⟨{ name, servers := server :: rest, pool := [l.next], opened := 1 },
    opened.answered l.next (Command.use name).toFrame, l.next, ?_,
    ⟨rfl, opened.idle_answered _ _, ?_⟩, ?_⟩
  · rw [connect, hcall]
    rfl
  · rw [Loopback.answered, hreceive, Endpoint.selected_select, if_pos rfl]
  · rw [Loopback.answered, hreceive]
    rfl

end Client

/-! ## Runs of calls -/

namespace Served

def call (caches : TreeMap String Cache) (name : String) (r : Request) :
    Option (Exchange CacheError) × TreeMap String Cache :=
  match caches[name]? with
  | some c => (some ⟨r, (c.step r).1⟩, caches.insert name (c.step r).2)
  | none => (none, caches)

def run (caches : TreeMap String Cache) :
    List (String × Request) → List (Option (Exchange CacheError)) × TreeMap String Cache
  | [] => ([], caches)
  | (name, r) :: calls =>
    let (exchange, caches) := call caches name r
    let (exchanges, caches) := run caches calls
    (exchange :: exchanges, caches)

variable {caches caches' : TreeMap String Cache}

theorem mem_call {name : String} (hname : name ∈ caches) (other : String) (r : Request) :
    name ∈ (call caches other r).2 := by
  unfold call
  split
  · exact TreeMap.mem_insert.2 (.inr hname)
  · exact hname

theorem call_congr (h : ∀ n : String, caches[n]? = caches'[n]?) (name : String) (r : Request) :
    (call caches name r).1 = (call caches' name r).1 ∧
      ∀ n : String, (call caches name r).2[n]? = (call caches' name r).2[n]? := by
  unfold call
  rw [h name]
  cases caches'[name]? with
  | none => exact ⟨rfl, h⟩
  | some c =>
      refine ⟨rfl, fun n => ?_⟩
      rw [TreeMap.getElem?_insert, TreeMap.getElem?_insert, h n]

end Served

inductive EndpointCall
  /-- Through the client. -/
  | remote (r : Request)
  /-- On the served cache of a name. -/
  | direct (name : String) (r : Request)

namespace EndpointCall

def onCache (name : String) : EndpointCall → String × Request
  | .remote r => (name, r)
  | .direct other r => (other, r)

def runOn (caches : TreeMap String Cache) (name : String) (calls : List EndpointCall) :
    List (Option (Exchange CacheError)) × TreeMap String Cache :=
  Served.run caches (calls.map (onCache name))

end EndpointCall

namespace Client

def makeCall (c : Client) (l : Loopback) :
    EndpointCall → Option (Exchange CacheError) × Client × Loopback
  | .remote r =>
    let (response, c, l) := c.perform Loopback.network l r
    (some ⟨r, response⟩, c, l)
  | .direct name r =>
    let (exchange, caches) := Served.call l.endpoint.caches name r
    (exchange, c, { l with endpoint := { l.endpoint with caches } })

def runCalls (c : Client) (l : Loopback) :
    List EndpointCall → List (Option (Exchange CacheError)) × Client × Loopback
  | [] => ([], c, l)
  | call :: calls =>
    let (exchange, c, l) := c.makeCall l call
    let (exchanges, c, l) := runCalls c l calls
    (exchange :: exchanges, c, l)

end Client

/-- What the exchange says comes through the codec, and it is one that a client can have. -/
structure Exchange.Travels (x : Exchange CacheError) : Prop where
  command : ∃ cmd, Client.command? x.request = some cmd ∧ cmd.Travels
  answer : ∀ a, x.response = .ok a → x.request.Travels a

namespace EndpointCall

/-- Every call through the client comes through the codec, with the answer that the cache gives. -/
def Travel (caches : TreeMap String Cache) (name : String) (calls : List EndpointCall) : Prop :=
  ∀ (i : Nat) (r : Request) (x : Exchange CacheError), calls[i]? = some (.remote r) →
    (runOn caches name calls).1[i]? = some (some x) → x.Travels

variable {caches : TreeMap String Cache} {name : String} {call : EndpointCall}
  {calls : List EndpointCall}

theorem travel_nil : Travel caches name [] := by
  unfold Travel
  intro i r x hr
  cases hr

theorem travel_cons_iff : Travel caches name (call :: calls) ↔
    (∀ r x, call = .remote r → (Served.call caches name r).1 = some x → x.Travels) ∧
      Travel (Served.call caches (call.onCache name).1 (call.onCache name).2).2 name calls := by
  unfold Travel
  constructor
  · intro h
    refine ⟨?_, fun i r x hr hx => h (i + 1) r x hr hx⟩
    rintro r x rfl hx
    exact h 0 r x rfl (congrArg some hx)
  · rintro ⟨hhead, htail⟩ i r x hr hx
    cases i with
    | zero =>
        obtain rfl := Option.some.inj hr
        exact hhead r x rfl (Option.some.inj hx)
    | succ i => exact htail i r x hr hx

end EndpointCall

namespace Client

variable {name : String} {c : Client} {l : Loopback} {conn : ConnectionId}
  {caches : TreeMap String Cache} {call : EndpointCall} {calls : List EndpointCall}

theorem Connected.makeCall (h : Connected name c l conn) (hname : name ∈ caches)
    (hcaches : ∀ n : String, l.endpoint.caches[n]? = caches[n]?)
    (htravels : EndpointCall.Travel caches name (call :: calls)) :
    ∃ l', c.makeCall l call =
        ((Served.call caches (call.onCache name).1 (call.onCache name).2).1, c, l') ∧
      Connected name c l' conn ∧
      ∀ n : String, l'.endpoint.caches[n]? =
        (Served.call caches (call.onCache name).1 (call.onCache name).2).2[n]? := by
  cases call with
  | direct other r =>
      obtain ⟨hexchange, hafter⟩ := Served.call_congr hcaches other r
      refine ⟨{ l with endpoint :=
        { l.endpoint with caches := (Served.call l.endpoint.caches other r).2 } },
        Prod.ext hexchange rfl, ⟨h.pool, h.idle, h.selected⟩, hafter⟩
  | remote r =>
      obtain ⟨cache, hcache⟩ := Option.isSome_iff_exists.1 (TreeMap.mem_iff_isSome_getElem?.1 hname)
      have hcall : Served.call caches name r =
          (some ⟨r, (cache.step r).1⟩, caches.insert name (cache.step r).2) := by
        rw [Served.call, hcache]
      have hx := (EndpointCall.travel_cons_iff.1 htravels).1 r _ rfl (congrArg Prod.fst hcall)
      obtain ⟨cmd, hcmd, hcmdTravels⟩ := hx.command
      obtain ⟨l', hperform, hconnected, hafter⟩ :=
        h.perform ((hcaches name).trans hcache) hcmd hcmdTravels hx.answer
      refine ⟨l', ?_, hconnected, fun n => ?_⟩
      · simp only [Client.makeCall, hperform, EndpointCall.onCache, hcall]
      · simp only [hafter, EndpointCall.onCache, hcall, TreeMap.getElem?_insert,
          Std.LawfulEqCmp.compare_eq_iff_eq, hcaches]

theorem Connected.runCalls (h : Connected name c l conn) (hname : name ∈ caches)
    (hcaches : ∀ n : String, l.endpoint.caches[n]? = caches[n]?)
    (htravels : EndpointCall.Travel caches name calls) :
    (c.runCalls l calls).1 = (EndpointCall.runOn caches name calls).1 ∧
      ∀ n : String, (c.runCalls l calls).2.2.endpoint.caches[n]? =
        (EndpointCall.runOn caches name calls).2[n]? := by
  induction calls generalizing l caches with
  | nil => exact ⟨rfl, hcaches⟩
  | cons call calls ih =>
      obtain ⟨l', hcall, hconnected, hafter⟩ := h.makeCall hname hcaches htravels
      obtain ⟨hexchanges, hlast⟩ :=
        ih hconnected (Served.mem_call hname _ _) hafter (EndpointCall.travel_cons_iff.1 htravels).2
      refine ⟨?_, fun n => ?_⟩
      · simp only [Client.runCalls, hcall, hexchanges]
        rfl
      · simp only [Client.runCalls, hcall, hlast]
        rfl

end Client

/-- Calls through a client of a served cache, mixed with calls on the served caches, return what the
same calls on the caches return and leave every cache as these do. -/
theorem remote_calls_eq_direct_calls {l : Loopback} {servers : List SocketAddress} {name : String}
    {calls : List EndpointCall} (hreachable : l.reachable) (hservers : servers ≠ [])
    (hname : name ∈ l.endpoint.caches) (hfits : (utf8 name).length < 2 ^ 63)
    (htravels : EndpointCall.Travel l.endpoint.caches name calls) :
    ∃ c l', Client.connect Loopback.network name servers l = (.ok c, l') ∧
      (c.runCalls l' calls).1 = (EndpointCall.runOn l.endpoint.caches name calls).1 ∧
      ∀ n : String, (c.runCalls l' calls).2.2.endpoint.caches[n]? =
        (EndpointCall.runOn l.endpoint.caches name calls).2[n]? := by
  obtain ⟨c, l', conn, hconnect, hconnected, hcaches⟩ :=
    Client.exists_connect hservers hreachable hname hfits
  refine ⟨c, l', hconnect, ?_⟩
  exact hconnected.runCalls hname (fun n => by rw [hcaches]) htravels

theorem remote_put_then_query :
    let l : Loopback := { endpoint := .ofSettings [{ name := "cache" }] }
    let calls : List EndpointCall :=
      [.remote (.put 1 (.record (.forIndex 1))), .remote (.query (.salary .zero (.ofNat 2000)))]
    ∃ c l', Client.connect Loopback.network "cache" [⟨.v4 ⟨127, 0, 0, 1⟩, 11222, 0⟩] l =
        (.ok c, l') ∧
      (c.runCalls l' calls).1 = (EndpointCall.runOn l.endpoint.caches "cache" calls).1 ∧
      ∀ n : String, (c.runCalls l' calls).2.2.endpoint.caches[n]? =
        (EndpointCall.runOn l.endpoint.caches "cache" calls).2[n]? := by
  intro l calls
  let stored := (Cache.ofSettings { name := "cache" }).step (.put 1 (.record (.forIndex 1)))
  have hcache : l.endpoint.caches["cache"]? = some (.ofSettings { name := "cache" }) :=
    TreeMap.getElem?_insert_self
  have hput : Served.call l.endpoint.caches "cache" (.put 1 (.record (.forIndex 1))) =
      (some ⟨_, stored.1⟩, l.endpoint.caches.insert "cache" stored.2) := by
    rw [Served.call, hcache]
  have hquery : (Served.call (Served.call l.endpoint.caches "cache"
      (.put 1 (.record (.forIndex 1)))).2 "cache" (.query (.salary .zero (.ofNat 2000)))).1 =
        some ⟨_, (stored.2.step (.query (.salary .zero (.ofNat 2000)))).1⟩ := by
    rw [hput, Served.call, TreeMap.getElem?_insert_self]
  have hfound : stored.2.store.query (.salary .zero (.ofNat 2000)) = [.forIndex 1] := by
    decide +kernel
  apply remote_calls_eq_direct_calls rfl (by simp)
    (TreeMap.mem_iff_isSome_getElem?.2 (by rw [hcache]; rfl)) (by decide)
  refine EndpointCall.travel_cons_iff.2
    ⟨?_, EndpointCall.travel_cons_iff.2 ⟨?_, EndpointCall.travel_nil⟩⟩
  · rintro r x ⟨⟩ hx
    obtain rfl := Option.some.inj ((congrArg Prod.fst hput).symm.trans hx)
    exact ⟨⟨_, rfl, .set ⟨by decide +kernel, by decide +kernel⟩⟩, fun _ _ => trivial⟩
  · rintro r x ⟨⟩ hx
    obtain rfl := Option.some.inj (hquery.symm.trans hx)
    refine ⟨⟨_, rfl, .query ⟨fun _ => by decide +kernel, by decide +kernel⟩
      ⟨fun _ => by decide +kernel, by decide +kernel⟩⟩, fun a ha => ?_⟩
    obtain rfl : a = [.forIndex 1] := by
      rw [← hfound]
      exact (Except.ok.inj ha).symm
    refine ⟨by decide, fun r hr => ?_⟩
    obtain rfl := List.mem_singleton.1 hr
    exact ⟨by decide +kernel, by decide +kernel⟩

end CacheBench
