import CacheBench.Program

/-!
# Units of work

The pieces that workloads are made of: drawing distinct keys, writing a key that is absent, and
querying a salary window whose answer is checked.
-/

namespace CacheBench

namespace Work

/-- Draws keys below `range` into `b` until there are `count`, in at most `fuel` draws. -/
def drawKeys (count : Nat) (range : UInt64) : Nat → Batch → Work Batch
  | 0, b => if b.size < count then throw (.panic none) else pure b
  | fuel + 1, b =>
    if b.size < count then do
      let k ← between 0 range
      drawKeys count range fuel (b.insert k (.int k.toInt64))
    else pure b

def enoughDraws : Nat := 2 ^ 256

/-- `count` distinct keys below `range`, each with itself as its value. -/
def distinctKeys (count : Nat) (range : UInt64) : Work Batch :=
  drawKeys count range enoughDraws ∅

/-- Reads a key of the lower half and writes it if it is absent, or else a key of the upper half.
Returns the key written. -/
def writeAbsent (range : UInt64) : Work Key :=
  inTransaction fun t => do
    let half := range / 2
    let k ← between 0 half
    let seen ← ask (.txGet t k)
    let k ← if seen.isSome then between half range else pure k
    ask (.txPut t k (.sample k))
    return k

def windowStart (range : UInt64) : Work Binary64 := do
  let x ← unit
  return x * .ofNat range.toNat * salaryStep

/-- The records with salaries in `[min, min + 1000)`, each checked. -/
def queryAndVerify (min : Binary64) : Work (List Record) := do
  let max := min + salaryStep
  let records ← ask (.query (.salary min max))
  match records.find? fun r => !(min.le r.salary && r.salary.lt max) with
  | some r => throw (.error (.invalidRecord min max r))
  | none => return records

end Work

end CacheBench
