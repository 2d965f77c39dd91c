import CacheBench.Wire.Command

/-!
# Endpoints

An endpoint serves named caches to connections. Each connection works on the cache it has selected,
at first the plain one. `serve` says what a command does to the caches that a lookup gives, and
`Endpoint.receive` what a frame on a connection does to the endpoint. Every frame gets one reply,
except an empty array, which gets none.
-/

namespace CacheBench

open Std (TreeMap)

abbrev ConnectionId := Nat

namespace Frame

def done : Frame := .simple (utf8 "OK")

def refusal (text : String) : Frame := .error ("ERR " ++ text)

end Frame

/-- What a command leads to: the reply, the connection's selection, and the new state of the
selected cache if the command reached it. -/
structure Served where
  reply : Frame
  selected : String
  cache? : Option Cache := none

namespace Command

def apply (c : Cache) : Command → Except CacheError Frame × Cache
  | .get k =>
    let (x, c) := c.step (.get k)
    (x.map fun v => (v.map fun v => Frame.ofText v.toJson).getD .null, c)
  | .set k v =>
    let (x, c) := c.step (.put k v)
    (x.map fun _ => .done, c)
  | .mset b =>
    let (x, c) := c.step (.putAll b)
    (x.map fun _ => .done, c)
  | .query p =>
    let (x, c) := c.step (.query p)
    (x.map fun rs => .array (rs.map fun r => Frame.ofText r.toJson), c)
  | .size =>
    let (x, c) := c.step .size
    (x.map fun n => .integer (.ofNat n), c)
  | .ping | .use _ => (.ok .done, c)

end Command

def serve (lookup : String → Option Cache) (selected : String) : Command → Served
  | .ping => { reply := .simple (utf8 "PONG"), selected }
  | .use name =>
    if (lookup name).isSome then { reply := .done, selected := name }
    else { reply := .refusal (CacheError.unknownCache name).message, selected }
  | cmd =>
    match lookup selected with
    | none => { reply := .refusal (CacheError.unknownCache selected).message, selected }
    | some c =>
      match cmd.apply c with
      | (.ok reply, c) => { reply, selected, cache? := some c }
      | (.error e, c) => { reply := .refusal e.message, selected, cache? := some c }

/-- What a frame of a connection leads to. `words` is what the JSON reader says of malformed texts. -/
def serveFrame (words : Bytes → String) (lookup : String → Option Cache) (selected : String)
    (f : Frame) : Option Served :=
  match Command.ofFrame f with
  | .ok none => none
  | .ok (some cmd) => some (serve lookup selected cmd)
  | .error e => some { reply := .refusal (e.text words), selected }

structure Endpoint where
  caches : TreeMap String Cache := ∅
  selections : TreeMap ConnectionId String := ∅
  /-- What the JSON reader says of a malformed text. -/
  words : Bytes → String := fun _ => Report.malformedText

namespace Endpoint

def ofSettings (settings : List Settings) : Endpoint where
  caches := settings.foldl (fun m s => m.insert s.name (.ofSettings s)) ∅

def selected (e : Endpoint) (conn : ConnectionId) : String := e.selections.getD conn plainCache

/-- The reply to a frame on a connection, and the endpoint after it. -/
def receive (e : Endpoint) (conn : ConnectionId) (f : Frame) : Option Frame × Endpoint :=
  match serveFrame e.words (fun name => e.caches[name]?) (e.selected conn) f with
  | none => (none, e)
  | some served =>
    (some served.reply,
      { e with
        caches := match served.cache? with
          | some c => e.caches.insert (e.selected conn) c
          | none => e.caches
        selections := e.selections.insert conn served.selected })

def run (e : Endpoint) : List (ConnectionId × Frame) → List (Option Frame) × Endpoint
  | [] => ([], e)
  | (conn, f) :: rest =>
    let (reply, e) := e.receive conn f
    let (replies, e) := run e rest
    (reply :: replies, e)

def disconnect (e : Endpoint) (conn : ConnectionId) : Endpoint :=
  { e with selections := e.selections.erase conn }

/-- Bytes on a connection up to its end: the bytes of all replies. Nothing after a malformed frame
is answered, and an incomplete frame at the end is dropped. -/
def receiveAll (e : Endpoint) (conn : ConnectionId) (s : Bytes) : Bytes × Endpoint :=
  let (frames, _, _) := Frame.decodeAll s
  let (replies, e) := e.run (frames.map (conn, ·))
  (Frame.encodeAll (replies.filterMap id), e.disconnect conn)

end Endpoint

end CacheBench
