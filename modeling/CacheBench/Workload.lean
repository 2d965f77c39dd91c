import CacheBench.Config
import CacheBench.Population
import CacheBench.Workload.Operation

/-!
# Workloads

A workload is a kind of measured work. `Workload.test` is one unit of it as a program, and the query
workloads populate their cache before they are measured.
-/

namespace CacheBench

inductive Workload
  | bulkPut
  | bulkPutTx
  | putGetTx
  | putTx
  | rangeQuery
  | rangeQueryPut
deriving DecidableEq

/-- How a unit of work ended: done, or with a failed transaction that was rolled back. -/
inductive Outcome
  | completed
  | rolledBack (text : String)
deriving DecidableEq

namespace Workload

def all : List Workload := [.bulkPut, .bulkPutTx, .putGetTx, .putTx, .rangeQuery, .rangeQueryPut]

def name : Workload → String
  | .bulkPut => "BulkPut"
  | .bulkPutTx => "BulkPutTx"
  | .putGetTx => "PutGetTx"
  | .putTx => "PutTx"
  | .rangeQuery => "RangeQuery"
  | .rangeQueryPut => "RangeQueryPut"

def optionName : Workload → String
  | .bulkPut => "bulk-put"
  | .bulkPutTx => "bulk-put-tx"
  | .putGetTx => "put-get-tx"
  | .putTx => "put-tx"
  | .rangeQuery => "range-query"
  | .rangeQueryPut => "range-query-put"

def ofOptionName? (ignoreCase : Bool) (s : String) : Option Workload :=
  all.find? fun w => if ignoreCase then w.optionName = s.map Char.toLower else w.optionName = s

def isTransactional : Workload → Bool
  | .bulkPutTx | .putGetTx | .putTx => true
  | .bulkPut | .rangeQuery | .rangeQueryPut => false

def cacheName : Workload → String
  | .bulkPut => plainCache
  | .bulkPutTx | .putGetTx | .putTx => transactionalCache
  | .rangeQuery | .rangeQueryPut => queryCache

def populates : Workload → Bool
  | .rangeQuery | .rangeQueryPut => true
  | .bulkPut | .bulkPutTx | .putGetTx | .putTx => false

/-- A put in a transaction of its own. A failed one is rolled back; the policy says what that
makes of the unit of work. -/
def putInTransaction (config : Config) : Work Outcome := do
  let k ← Work.between 0 config.range
  let t ← Work.ask .begin
  let result ← Work.attempt <| do
    match ← Work.attempt (Work.ask (.txPut t k (.sample k))) with
    | .ok () => Work.ask (.commit t)
    | .error (.error e) => Work.abandon t e
    | .error (.panic text) => do
      Work.ask (.drop t)
      throw (.panic text)
  match result with
  | .ok () => return .completed
  | .error (.panic text) => throw (.panic text)
  | .error (.error e) =>
    match config.failurePolicy with
    | .propagate => throw (.error e)
    | .log => return .rolledBack e.report.message

def test (config : Config) : Workload → Work Outcome
  | .bulkPut => do
    let b ← Work.distinctKeys config.batch config.range
    Work.ask (.putAll b)
    return .completed
  | .bulkPutTx => do
    let b ← Work.distinctKeys config.batch config.range
    Work.inTransaction fun t => Work.txPutAll t b
    return .completed
  | .putGetTx => do
    let _ ← Work.writeAbsent config.range
    return .completed
  | .putTx => putInTransaction config
  | .rangeQuery => do
    let min ← Work.windowStart config.range
    let _ ← Work.queryAndVerify min
    return .completed
  | .rangeQueryPut => do
    if ← Work.coin then
      let min ← Work.windowStart config.range
      let _ ← Work.queryAndVerify min
    else
      let i ← Work.between 0 config.range
      Work.ask (.put i (.record (.forIndex i)))
    return .completed

def setUp {σ : Type} (env : Environment σ) (config : Config) (workers : Nat) (w : Workload) (s : σ) :
    Except PopulationError Unit × σ :=
  if w.populates then populate env config.range workers s else (.ok (), s)

/-- Prepares the cache where threads may be refused. -/
def prepare {σ : Type} (refused? : String → Option Report) (env : Environment σ) (config : Config)
    (workers : Nat) (w : Workload) (s : σ) : Except (Fault PopulationError) Unit × σ :=
  if w.populates then populateOn refused? env config.range workers s else (.ok (), s)

end Workload

end CacheBench
