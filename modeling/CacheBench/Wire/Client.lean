import CacheBench.Net.Address
import CacheBench.Program
import CacheBench.Wire.Endpoint

/-!
# Remote clients

A client works on one cache of an endpoint through a pool of connections. A call takes a connection
from the pool, or opens one and selects the cache on it, sends its request, waits for the reply and
gives the connection back. A connection whose exchange failed is closed instead. `Client.advance` is
one step of a call; `Client.call` runs a call to its end, and `Callers` lets the steps of any number
of calls on one client interleave.
-/

namespace CacheBench

/-- What clients reach their servers through. -/
structure Network (ν : Type) where
  connect : SocketAddress → ν → Except NetworkRefusal ConnectionId × ν
  send : ConnectionId → Bytes → ν → ν
  /-- The next frame from the server. -/
  receive : ConnectionId → ν → Except TransportFault Frame × ν
  close : ConnectionId → ν → ν

/-! ## Frames that are not understood -/

namespace Frame

def byteText (c : UInt8) : String :=
  if c = ascii '"' then "\\\""
  else if c = ascii '\\' then "\\\\"
  else if c = 9 then "\\t"
  else if c = 13 then "\\r"
  else if c = 10 then "\\n"
  else if c = 0 then "\\0"
  else if 0x20 ≤ c && c < 0x7f then String.singleton (Char.ofNat c.toNat)
  else "\\x" ++ String.ofList [Json.lowerHex (c.toNat / 16), Json.lowerHex c.toNat]

def bytesText (b : Bytes) : String := "b\"" ++ String.join (b.map byteText) ++ "\""

mutual

def describe : Frame → String
  | .simple b => "SimpleString(" ++ bytesText b ++ ")"
  | .error text => "Error(" ++ Text.quoted text ++ ")"
  | .integer n => "Integer(" ++ toString n ++ ")"
  | .bulk b => "BulkString(" ++ bytesText b ++ ")"
  | .array items => "Array([" ++ ", ".intercalate (describeAll items) ++ "])"
  | .null => "Null"

def describeAll : List Frame → List String
  | [] => []
  | f :: fs => describe f :: describeAll fs

end

def unexpected (request : String) (f : Frame) : CacheError :=
  .remote s!"unexpected {request} response: {f.describe}"

/-- Accepts the reply that says only that the request was done. -/
def expectDone : Frame → Except CacheError Unit
  | .error text => .error (.remote text)
  | .simple b => if b = utf8 "OK" then .ok () else .error (unexpected "command" (.simple b))
  | f => .error (unexpected "command" f)

end Frame

/-! ## Calls -/

structure Client where
  name : String
  servers : List SocketAddress
  /-- Connections that are not in use, last returned first. -/
  pool : List ConnectionId := []
  /-- How many connections were opened, which says what server is next. A counter of 64 bits tells
  the same until it wraps (`Callers.opened_run_le`). -/
  opened : Nat := 0

/-- How far a call has come. A call without a request only opens a connection. -/
inductive Stage
  | start (request : Option Frame)
  | connecting (request : Option Frame) (server : SocketAddress)
  | selecting (request : Option Frame) (conn : ConnectionId)
  | awaitingSelection (request : Option Frame) (conn : ConnectionId)
  | asking (request : Frame) (conn : ConnectionId)
  | awaitingReply (conn : ConnectionId)
  | finished (result : Except CacheError Frame)

namespace Client

variable {ν : Type}

def release (c : Client) (conn : ConnectionId) : Client := { c with pool := conn :: c.pool }

/-- Takes a pooled connection for a request, or goes on to open one. -/
def checkout (c : Client) (request : Option Frame) : Stage × Client :=
  match request, c.pool with
  | some f, conn :: pool => (.asking f conn, { c with pool })
  | _, _ =>
    match c.servers[c.opened % c.servers.length]? with
    | some server => (.connecting request server, { c with opened := c.opened + 1 })
    | none => (.finished (.error (.transport .noServers)), c)

/-- Ends a call whose connection cannot be used again. -/
def abandon (net : Network ν) (c : Client) (s : ν) (conn : ConnectionId) (e : CacheError) :
    Stage × Client × ν := (.finished (.error e), c, net.close conn s)

def selected (c : Client) (request : Option Frame) (conn : ConnectionId) : Stage × Client :=
  match request with
  | some f => (.asking f conn, c)
  | none => (.finished (.ok .done), c.release conn)

def answered (c : Client) (conn : ConnectionId) : Frame → Stage × Client
  | .error text => (.finished (.error (.remote text)), c.release conn)
  | reply => (.finished (.ok reply), c.release conn)

def advance (net : Network ν) (c : Client) (s : ν) : Stage → Stage × Client × ν
  | .start request =>
    let (stage, c) := c.checkout request
    (stage, c, s)
  | .connecting request server =>
    match net.connect server s with
    | (.ok conn, s) => (.selecting request conn, c, s)
    | (.error reason, s) => (.finished (.error (.transport (.refused server reason))), c, s)
  | .selecting request conn =>
    (.awaitingSelection request conn, c, net.send conn (Command.use c.name).toFrame.encode s)
  | .awaitingSelection request conn =>
    match net.receive conn s with
    | (.ok reply, s) =>
      match reply.expectDone with
      | .ok () =>
        let (stage, c) := c.selected request conn
        (stage, c, s)
      | .error e => c.abandon net s conn e
    | (.error fault, s) => c.abandon net s conn (.transport fault)
  | .asking request conn => (.awaitingReply conn, c, net.send conn request.encode s)
  | .awaitingReply conn =>
    match net.receive conn s with
    | (.ok reply, s) =>
      let (stage, c) := c.answered conn reply
      (stage, c, s)
    | (.error fault, s) => c.abandon net s conn (.transport fault)
  | .finished result => (.finished result, c, s)

def advances (net : Network ν) : Nat → Stage → Client → ν → Stage × Client × ν
  | 0, stage, c, s => (stage, c, s)
  | n + 1, stage, c, s =>
    let (stage, c, s) := c.advance net s stage
    advances net n stage c s

/-- All steps of a call, of which there are at most six. -/
def call (net : Network ν) (c : Client) (s : ν) (request : Option Frame) :
    Except CacheError Frame × Client × ν :=
  match advances net 6 (.start request) c s with
  | (.finished result, c, s) => (result, c, s)
  | (_, c, s) => (.error (.transport .broken), c, s)

/-- A client for the cache of a name. The connection it opens first shows that the cache exists. -/
def connect (net : Network ν) (name : String) (servers : List SocketAddress) (s : ν) :
    Except CacheError Client × ν :=
  let (result, c, s) := call net { name, servers } s none
  (result.map fun _ => c, s)

/-! ## A remote cache -/

def recordOf : Frame → Except CacheError Record
  | .bulk b =>
    match Record.ofJson? b with
    | some r => .ok r
    | none => .error .malformedValue
  | f => .error (f.unexpected "QUERY")

def command? : Request → Option Command
  | .get k => some (.get k)
  | .put k v => some (.set k v)
  | .putAll b => some (.mset b)
  | .query p => some (.query p)
  | .size => some .size
  | _ => none

def read : (r : Request) → Frame → Except CacheError r.Answer
  | .get _, .null => .ok none
  | .get _, .bulk b =>
    match Value.ofJson? b with
    | some v => .ok (some v)
    | none => .error .malformedValue
  | .get _, f => .error (f.unexpected "GET")
  | .put _ _, f | .putAll _, f => f.expectDone
  | .query _, .array items => items.mapM recordOf
  | .query _, f => .error (f.unexpected "QUERY")
  | .size, .integer n => if 0 ≤ n then .ok n.toInt.toNat else .error ((Frame.integer n).unexpected "DBSIZE")
  | .size, f => .error (f.unexpected "DBSIZE")
  | .begin, _ => .error (.transactionsUnsupported "remote client")
  | .txGet _ _, _ | .txPut _ _ _, _ | .commit _, _ | .rollback _, _ | .drop _, _ =>
    .error .finishedTransaction

/-- Answers a request through the server. Nothing is sent for an empty batch, and a client has no
transactions. -/
def perform (net : Network ν) (c : Client) (s : ν) (r : Request) :
    Except CacheError r.Answer × Client × ν :=
  match r, command? r with
  | .putAll b, some cmd =>
    if b.isEmpty then (.ok (), c, s)
    else
      let (result, c, s) := c.call net s (some cmd.toFrame)
      (result.bind (read (.putAll b)), c, s)
  | r, some cmd =>
    let (result, c, s) := c.call net s (some cmd.toFrame)
    (result.bind (read r), c, s)
  | r, none => (read r .null, c, s)

def service (net : Network ν) : Service (Client × ν) := fun r (c, s) =>
  let (result, c, s) := c.perform net s r
  (result.mapError .error, c, s)

end Client

/-! ## Calls side by side -/

/-- A client with the calls that were made on it, in the order in which they began. -/
structure Callers (ν : Type) where
  client : Client
  network : ν
  calls : List Stage := []

namespace Callers

variable {ν : Type}

inductive Move
  /-- Somebody makes a call. -/
  | call (request : Frame)
  /-- One of the calls takes its next step. -/
  | advance (i : Nat)

def step (net : Network ν) (c : Callers ν) : Move → Callers ν
  | .call request => { c with calls := c.calls ++ [.start (some request)] }
  | .advance i =>
    match c.calls[i]? with
    | some stage =>
      let (stage, client, network) := c.client.advance net c.network stage
      { client, network, calls := c.calls.set i stage }
    | none => c

def run (net : Network ν) (c : Callers ν) (moves : List Move) : Callers ν := moves.foldl (step net) c

theorem run_append (net : Network ν) (c : Callers ν) (moves moves' : List Move) :
    c.run net (moves ++ moves') = (c.run net moves).run net moves' := List.foldl_append

end Callers

end CacheBench
