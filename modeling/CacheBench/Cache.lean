import CacheBench.Store.Transaction

/-!
# Caches

A `Request` is one call on a cache or on a transaction of it, and `Request.Answer` the type of
what it returns. A `Cache` is a store with its open transactions; `Cache.step` answers a request
and `Cache.run` a list of them. The requests of any number of callers, in any interleaving, are
such a list. A transaction gives up its locks in the step that ends it; `Releasing`, in
`Proofs.LockRelease`, is a cache where that takes a step of its own.
-/

namespace CacheBench

open Std (TreeMap)

inductive Request
  | get (k : Key)
  | put (k : Key) (v : Value)
  | putAll (b : Batch)
  | query (p : Predicate)
  | size
  | begin
  | txGet (t : TxId) (k : Key)
  | txPut (t : TxId) (k : Key) (v : Value)
  | commit (t : TxId)
  | rollback (t : TxId)
  | drop (t : TxId)

namespace Request

abbrev Answer : Request → Type
  | .get _ | .txGet _ _ => Option Value
  | .query _ => List Record
  | .size => Nat
  | .begin => TxId
  | .put _ _ | .putAll _ | .txPut _ _ _ | .commit _ | .rollback _ | .drop _ => Unit

end Request

/-- A request with what came back. -/
structure Exchange (ε : Type) where
  request : Request
  response : Except ε request.Answer

structure Cache where
  store : Store
  live : TreeMap TxId Transaction := ∅

namespace Cache

def ofSettings (settings : Settings) : Cache := { store := { settings } }

def name (c : Cache) : String := c.store.settings.name

def withTransaction {α : Type} (c : Cache) (t : TxId)
    (f : Transaction → Except CacheError α × Cache) : Except CacheError α × Cache :=
  match c.live[t]? with
  | some tx => f tx
  | none => (.error .finishedTransaction, c)

def step (c : Cache) : (r : Request) → Except CacheError r.Answer × Cache
  | .get k => (.ok (c.store.get k), c)
  | .put k v => (.ok (), { c with store := c.store.put k v })
  | .putAll b => (.ok (), { c with store := c.store.putAll b })
  | .query p => (.ok (c.store.query p), c)
  | .size => (.ok c.store.size, c)
  | .begin =>
    match c.store.begin with
    | .ok (tx, store) => (.ok tx.id, { store, live := c.live.insert tx.id tx })
    | .error e => (.error e, c)
  | .txGet t k => c.withTransaction t fun tx =>
    let (v, tx) := tx.get c.store k
    (.ok v, { c with live := c.live.insert t tx })
  | .txPut t k v => c.withTransaction t fun tx =>
    match tx.put c.store k v with
    | .ok (store, tx) => (.ok (), { store, live := c.live.insert t tx })
    | .error e => (.error e, c)
  | .commit t => c.withTransaction t fun tx =>
    let (result, store) := tx.commit c.store
    (result, { store, live := c.live.erase t })
  | .rollback t | .drop t => c.withTransaction t fun tx =>
    (.ok (), { store := tx.close c.store, live := c.live.erase t })

def run (c : Cache) : List Request → List (Exchange CacheError) × Cache
  | [] => ([], c)
  | r :: rs =>
    let (response, c') := c.step r
    let (exchanges, c'') := run c' rs
    (⟨r, response⟩ :: exchanges, c'')

theorem run_append (c : Cache) (rs rs' : List Request) :
    c.run (rs ++ rs') =
      ((c.run rs).1 ++ ((c.run rs).2.run rs').1, ((c.run rs).2.run rs').2) := by
  induction rs generalizing c with
  | nil => rfl
  | cons r rs ih => simp [run, ih]

end Cache

end CacheBench
