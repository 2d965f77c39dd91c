import CacheBench.Files
import CacheBench.Json.Shape
import CacheBench.Number.Binary64
import CacheBench.Report

/-!
# Run summaries

The counters of one measurement, their throughput, and how they are written to a file.
-/

namespace CacheBench

structure Summary where
  description : String
  threads : Nat
  seed : UInt64
  operations : Nat
  errors : Nat
  rolledBack : Nat
  /-- Milliseconds. -/
  elapsed : Nat
deriving DecidableEq

namespace Summary

/-- Operations per second, none in no time. -/
def throughput (s : Summary) : Binary64 :=
  if s.elapsed = 0 then .zero else .ofNat s.operations * .ofNat 1000 / .ofNat s.elapsed

def toJson (s : Summary) : String :=
  Json.lines [("description", Json.quote s.description), ("threads", toString s.threads),
    ("seed", toString s.seed), ("operations", toString s.operations),
    ("errors", toString s.errors), ("rolled_back", toString s.rolledBack),
    ("elapsed_ms", toString s.elapsed)]

def refused (action path text : String) : Report := .context s!"{action} {path}" (.text text)

def write {m : Type → Type} [Monad m] (fs : FileSystem m) (path : String) (s : Summary) :
    m (Except Report Unit) := do
  let directory := Path.directory path
  let made ← if directory.isEmpty then pure (.ok ()) else fs.makeDirectories directory
  match made with
  | .error text => return .error (refused "create dir" directory text)
  | .ok () => return (← fs.writeFile path s.toJson).mapError (refused "write" path)

end Summary

end CacheBench
