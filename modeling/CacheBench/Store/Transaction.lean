import CacheBench.Settings
import CacheBench.Store.Entries

/-!
# Stores and transactions

A `Store` is the shared state of a cache: its entries, the table of key locks, and the counters
that give out versions and transaction numbers. A `Transaction` belongs to one store. It buffers
its writes and applies them as one batch at commit.

An optimistic transaction remembers the version of each key it first read and fails to commit when
a key that matters was written since. A pessimistic one locks a key before its first write to it
and keeps the lock to its end. Waiting for a lock is one attempt, made when the wait is over: the
key is free by then, or the wait has timed out.

Transactions are numbered from `1`, one number for each begin (`Cache.nextTx_run_le`), so a counter
of 64 bits gives the same numbers as long as there are fewer than `2 ^ 64` of them.
-/

namespace CacheBench

open Std (TreeMap)

abbrev TxId := Nat

structure Store where
  settings : Settings
  entries : Entries := {}
  /-- Key locks and the transactions that hold them. -/
  locks : TreeMap Key TxId := ∅
  nextVersion : Version := 1
  nextTx : TxId := 1

namespace Store

def get (s : Store) (k : Key) : Option Value := s.entries.value? k

def size (s : Store) : Nat := s.entries.size

def query (s : Store) (p : Predicate) : List Record := s.entries.query s.settings.indexed p

/-- Applies a batch under the next version. -/
def apply (s : Store) (b : Batch) : Store :=
  { s with
    entries := s.entries.putAll s.settings.indexed s.nextVersion b
    nextVersion := s.nextVersion + 1 }

def put (s : Store) (k : Key) (v : Value) : Store := s.apply (Batch.ofList [(k, v)])

/-- An empty batch takes no version. -/
def putAll (s : Store) (b : Batch) : Store := if b.isEmpty then s else s.apply b

def lock? (s : Store) (k : Key) (t : TxId) : Option Store :=
  match s.locks[k]? with
  | none => some { s with locks := s.locks.insert k t }
  | some owner => if owner = t then some s else none

def unlock (s : Store) (t : TxId) (keys : List Key) : Store :=
  { s with
    locks := keys.foldl (fun m k => if m[k]? = some t then m.erase k else m) s.locks }

end Store

structure Transaction where
  id : TxId
  /-- The version of each key at its first read from the store. -/
  readVersions : TreeMap Key Version := ∅
  /-- What reads from the store returned, kept for reading again. -/
  snapshot : TreeMap Key (Option Value) := ∅
  writes : Batch := ∅
  /-- The keys it has locked, latest first. -/
  held : List Key := []

namespace Transaction

/-- Whether a later read of a key returns what the first one did. -/
def repeatable (s : Store) : Bool := s.settings.isolation != .readCommitted

/-- The value that a read does not take from the store: a buffered write, or an earlier read. -/
def remembered? (s : Store) (t : Transaction) (k : Key) : Option (Option Value) :=
  match t.writes[k]? with
  | some v => some (some v)
  | none => if repeatable s then t.snapshot[k]? else none

def observe (s : Store) (t : Transaction) (k : Key) : Transaction :=
  { t with
    readVersions := t.readVersions.insertIfNew k (s.entries.version k)
    snapshot := if repeatable s then t.snapshot.insert k (s.get k) else t.snapshot }

def get (s : Store) (t : Transaction) (k : Key) : Option Value × Transaction :=
  match t.remembered? s k with
  | some v => (v, t)
  | none => (s.get k, t.observe s k)

/-- Locks a key before it is written, if writers have to. -/
def acquire (s : Store) (t : Transaction) (k : Key) : Except CacheError (Store × Transaction) :=
  if s.settings.concurrency = .pessimistic ∧ k ∉ t.held then
    match s.lock? k t.id with
    | some s' => .ok (s', { t with held := k :: t.held })
    | none => .error (.lockTimeout k s.settings.lockTimeout)
  else .ok (s, t)

def put (s : Store) (t : Transaction) (k : Key) (v : Value) :
    Except CacheError (Store × Transaction) := do
  let (s, t) ← t.acquire s k
  return (s, { t with writes := t.writes.insert k v })

/-- Whether a read of a key can make the commit fail. -/
def checked (s : Store) (t : Transaction) (k : Key) : Bool :=
  s.settings.isolation = .serializable || t.writes.contains k

/-- The first read whose key has changed since. -/
def conflict? (s : Store) (t : Transaction) : Option CacheError :=
  (t.readVersions.toList.find? fun (k, read) => t.checked s k && s.entries.version k != read).map
    fun (k, read) => .writeConflict k read (s.entries.version k)

def close (s : Store) (t : Transaction) : Store := s.unlock t.id t.held

/-- Applies the buffered writes, unless there are none or they conflict, and ends the
transaction. -/
def commit (s : Store) (t : Transaction) : Except CacheError Unit × Store :=
  if t.writes.isEmpty then (.ok (), t.close s)
  else
    match if s.settings.concurrency = .optimistic then t.conflict? s else none with
    | some e => (.error e, t.close s)
    | none => (.ok (), t.close (s.apply t.writes))

end Transaction

namespace Store

def begin (s : Store) : Except CacheError (Transaction × Store) :=
  if s.settings.transactional then
    .ok ({ id := s.nextTx }, { s with nextTx := s.nextTx + 1 })
  else .error (.transactionsUnsupported ("cache " ++ s.settings.name))

end Store

end CacheBench
