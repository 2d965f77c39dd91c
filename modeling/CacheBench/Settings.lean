import CacheBench.Report
import Std.Data.TreeMap

/-!
# Cache settings

`Settings` is the effective definition of one named cache. It comes from a `StoreConfig`, the JSON
file of a store, and the cluster's parameters: the standard caches have templates, the file may
override them, and the parameters fix replication, concurrency and isolation for all caches.
-/

namespace CacheBench

open Std (TreeMap)

/-- How transactions are kept apart: by checking versions at commit, or by locking keys on write. -/
inductive Concurrency
  | optimistic
  | pessimistic
deriving DecidableEq, Inhabited

namespace Concurrency

def text : Concurrency → String
  | .optimistic => "OPTIMISTIC"
  | .pessimistic => "PESSIMISTIC"

instance : ToString Concurrency := ⟨text⟩

def name : Concurrency → String
  | .optimistic => "optimistic"
  | .pessimistic => "pessimistic"

def all : List Concurrency := [.optimistic, .pessimistic]

def ofName? (s : String) : Option Concurrency := all.find? (·.name = s)

def toJson (c : Concurrency) : String := Json.quote c.name

def ofTree? (t : Json.Tree) : Option Concurrency := t.toName?.bind ofName?

end Concurrency

inductive Isolation
  | readCommitted
  | repeatableRead
  | serializable
deriving DecidableEq

namespace Isolation

instance : Inhabited Isolation := ⟨.repeatableRead⟩

def text : Isolation → String
  | .readCommitted => "READ_COMMITTED"
  | .repeatableRead => "REPEATABLE_READ"
  | .serializable => "SERIALIZABLE"

instance : ToString Isolation := ⟨text⟩

def name : Isolation → String
  | .readCommitted => "read_committed"
  | .repeatableRead => "repeatable_read"
  | .serializable => "serializable"

def all : List Isolation := [.readCommitted, .repeatableRead, .serializable]

def ofName? (s : String) : Option Isolation := all.find? (·.name = s)

def toJson (i : Isolation) : String := Json.quote i.name

def ofTree? (t : Json.Tree) : Option Isolation := t.toName?.bind ofName?

end Isolation

/-- Whether copies of a key are written before or after the caller goes on. -/
inductive Distribution
  | sync
  | async
deriving DecidableEq, Inhabited

namespace Distribution

def name : Distribution → String
  | .sync => "DistSync"
  | .async => "DistAsync"

def all : List Distribution := [.sync, .async]

def ofName? (s : String) : Option Distribution := all.find? (·.name = s)

def ofAsync (async : Bool) : Distribution := if async then .async else .sync

def toJson (d : Distribution) : String := Json.quote d.name

def ofTree? (t : Json.Tree) : Option Distribution := t.toName?.bind ofName?

end Distribution

/-! ## Effective settings -/

/-- Milliseconds a transaction waits for a lock unless the store says otherwise. -/
def defaultLockTimeout : UInt64 := 10000

structure Settings where
  name : String
  distribution : Distribution := .sync
  /-- Number of copies of a key. -/
  owners : Nat := 1
  transactional : Bool := false
  indexed : Bool := false
  concurrency : Concurrency := .optimistic
  isolation : Isolation := .repeatableRead
  /-- Milliseconds. -/
  lockTimeout : UInt64 := defaultLockTimeout
deriving DecidableEq

structure ClusterParams where
  backups : Nat := 0
  async : Bool := false
  concurrency : Concurrency := .optimistic
  isolation : Isolation := .repeatableRead

/-! ## Standard caches -/

def plainCache : String := "cache"
def transactionalCache : String := "transactional"
def queryCache : String := "queryCache"

def standardCaches : List String := [plainCache, transactionalCache, queryCache]

/-! ## Store configuration -/

/-- What a store configuration says about one cache. -/
structure Overrides where
  transactional : Option Bool := none
  indexed : Option Bool := none
deriving DecidableEq

structure StoreConfig where
  clusterName : Option String := none
  lockTimeout : UInt64 := defaultLockTimeout
  caches : TreeMap String Overrides := ∅

inductive StoreConfigError
  | unreadable (path text : String)
  | empty (path : String)
  | malformed (path : String)
deriving DecidableEq

def StoreConfigError.report : StoreConfigError → Report
  | .unreadable path text => .context ("read store config " ++ path) (.text text)
  | .empty path =>
    .context ("parse store config " ++ path)
      (.text "EOF while parsing a value at line 1 column 0")
  | .malformed path => .context ("parse store config " ++ path) .malformedJson

namespace Overrides

def toJson (o : Overrides) : String :=
  Json.object [("transactional", Json.option Json.bool o.transactional),
    ("indexed", Json.option Json.bool o.indexed)]

def ofTree? (t : Json.Tree) : Option Overrides :=
  match t.toFields? ["transactional", "indexed"] with
  | some [transactional, indexed] => do
    return ⟨← Json.defaulted none (Json.Tree.toOption? Json.Tree.toBool?) transactional,
      ← Json.defaulted none (Json.Tree.toOption? Json.Tree.toBool?) indexed⟩
  | _ => none

end Overrides

namespace StoreConfig

def toJson (c : StoreConfig) : String :=
  Json.object [("cluster_name", Json.option Json.quote c.clusterName),
    ("lock_timeout_ms", toString c.lockTimeout),
    ("caches", Json.object (c.caches.toList.map fun (k, o) => (k, o.toJson)))]

/-- Of two overrides under one name the last one counts. -/
def cachesOfTree? (t : Json.Tree) : Option (TreeMap String Overrides) := do
  let ms ← t.toMembers?
  let os ← ms.mapM fun (k, t) => (Overrides.ofTree? t).map (k, ·)
  return os.foldl (fun m (k, o) => m.insert k o) ∅

def ofTree? (t : Json.Tree) : Option StoreConfig :=
  match t.toFields? ["cluster_name", "lock_timeout_ms", "caches"] with
  | some [clusterName, lockTimeout, caches] => do
    return ⟨← Json.defaulted none (Json.Tree.toOption? Json.Tree.toText?) clusterName,
      ← Json.defaulted defaultLockTimeout Json.Tree.toUInt64? lockTimeout,
      ← Json.defaulted ∅ cachesOfTree? caches⟩
  | _ => none

def ofJson? (b : Bytes) : Option StoreConfig := (Json.Tree.read b).bind ofTree?

/-- The configuration in the file at `path`. No path means the defaults; `contents` is what a file
holds, or a text that says why it cannot be read. -/
def load (path : Option String) (contents : String → Except String Bytes) :
    Except StoreConfigError StoreConfig :=
  match path with
  | none => .ok {}
  | some path =>
    match contents path with
    | .error text => .error (.unreadable path text)
    | .ok [] => .error (.empty path)
    | .ok b =>
      match ofJson? b with
      | none => .error (.malformed path)
      | some c => .ok c

def template (name : String) : Bool × Bool :=
  if name = transactionalCache then (true, false)
  else if name = queryCache then (false, true)
  else (false, false)

/-- Waiting for a lock takes at least a millisecond. -/
def settings (c : StoreConfig) (name : String) (params : ClusterParams) : Settings :=
  let (transactional, indexed) := template name
  let overrides := c.caches.getD name {}
  { name
    distribution := .ofAsync params.async
    owners := params.backups + 1
    transactional := overrides.transactional.getD transactional
    indexed := overrides.indexed.getD indexed
    concurrency := params.concurrency
    isolation := params.isolation
    lockTimeout := max c.lockTimeout 1 }

end StoreConfig

end CacheBench
