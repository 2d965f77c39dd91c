import CacheBench.Error
import CacheBench.Predicate
import Std.Data.TreeMap
import Std.Data.TreeSet

/-!
# Entries of a cache

`Entries` maps each key to its latest value and the version that wrote it. An indexed cache also
keeps its record keys in buckets by salary, under the total order of numbers, and answers salary
queries from the buckets. Every other query scans the entries.
-/

namespace CacheBench

open Std (TreeMap TreeSet)

structure Versioned where
  version : Version
  value : Value
deriving DecidableEq

abbrev Batch := TreeMap Key Value

namespace Batch

/-- Of two values for one key the last one counts. -/
def ofList (pairs : List (Key × Value)) : Batch :=
  pairs.foldl (fun b (k, v) => b.insert k v) ∅

end Batch

abbrev SalaryIndex := TreeMap Binary64 (TreeSet Key)

namespace SalaryIndex

def bucket (index : SalaryIndex) (salary : Binary64) : TreeSet Key := index.getD salary ∅

/-- A bucket that loses its last key goes away. -/
def remove (index : SalaryIndex) (salary : Binary64) (k : Key) : SalaryIndex :=
  let keys := (index.bucket salary).erase k
  if keys.isEmpty then index.erase salary else index.insert salary keys

def add (index : SalaryIndex) (salary : Binary64) (k : Key) : SalaryIndex :=
  index.insert salary ((index.bucket salary).insert k)

/-- Keys of the buckets with `min ≤ salary < max` in the total order, by salary and then by key. -/
def range (index : SalaryIndex) (min max : Binary64) : List Key :=
  (index.toList.filter fun (salary, _) => (compare min salary).isLE && (compare salary max).isLT)
    |>.flatMap fun (_, keys) => keys.toList

end SalaryIndex

structure Entries where
  latest : TreeMap Key Versioned := ∅
  index : SalaryIndex := ∅

namespace Entries

def value? (e : Entries) (k : Key) : Option Value := e.latest[k]?.map Versioned.value

def version (e : Entries) (k : Key) : Version := (e.latest[k]?.map Versioned.version).getD 0

def salary? (e : Entries) (k : Key) : Option Binary64 := (e.value? k).bind Value.salary?

def record? (e : Entries) (k : Key) : Option Record := (e.value? k).bind Value.record?

def size (e : Entries) : Nat := e.latest.size

/-- The index after the value at `k` changed its salary from `old` to `new`. -/
def moved (index : SalaryIndex) (k : Key) (old new : Option Binary64) : SalaryIndex :=
  let index := match old with
    | some salary => index.remove salary k
    | none => index
  match new with
  | some salary => index.add salary k
  | none => index

def put (indexed : Bool) (version : Version) (e : Entries) (k : Key) (v : Value) : Entries :=
  let index := if indexed then moved e.index k (e.salary? k) v.salary? else e.index
  { latest := e.latest.insert k ⟨version, v⟩, index }

def putAll (indexed : Bool) (version : Version) (e : Entries) (b : Batch) : Entries :=
  b.toList.foldl (fun e (k, v) => e.put indexed version k v) e

/-- The matching records, found by salary. -/
def indexQuery (e : Entries) (p : Predicate) : List Record :=
  if (compare p.min p.max).isGE then []
  else ((e.index.range p.min p.max).filterMap e.record?).filter p.holds

/-- The matching records by id, those with one id by key. -/
def scanQuery (e : Entries) (p : Predicate) : List Record :=
  ((e.latest.toList.filterMap fun (_, v) => v.value.record?).filter p.holds).mergeSort
    fun r r' => r.id ≤ r'.id

def query (indexed : Bool) (e : Entries) (p : Predicate) : List Record :=
  if indexed && p.field = .salary then e.indexQuery p else e.scanQuery p

end Entries

end CacheBench
