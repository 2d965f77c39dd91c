import CacheBench.Json.Shape
import CacheBench.Number.Style
import CacheBench.Number.Numeral

/-!
# Records and values

A cache maps keys to values: a plain integer, a small sample, or a person-like record. Each has a
JSON form, a structure for a record and a choice for a value. `Record.forIndex` is the record that
populating a cache stores at an index.
-/

namespace CacheBench

abbrev Key := UInt64

/-- A key is a whole number below `2 ^ 64`, with or without a plus sign. -/
def Key.ofText? (s : String) : Option Key :=
  (wholeNumber? s).bind fun n => if n < 2 ^ 64 then some (.ofNat n) else none

structure Record where
  id : UInt64
  firstName : String
  lastName : String
  salary : Binary64
deriving DecidableEq, Inhabited

inductive Value
  | int (n : Int64)
  | sample (id : UInt64)
  | record (r : Record)
deriving DecidableEq

/-- Width of one salary step between consecutive populated records. -/
def salaryStep : Binary64 := .ofNat 1000

namespace Record

def forIndex (index : UInt64) : Record where
  id := index
  firstName := "firstName" ++ toString index
  lastName := "lastName" ++ toString index
  salary := .ofNat index.toNat * salaryStep

def text (r : Record) : String :=
  s!"Record [id={r.id}, firstName={r.firstName}, lastName={r.lastName}, salary={r.salary}]"

instance : ToString Record := ⟨text⟩

def toJson (r : Record) : String :=
  Json.object [("id", toString r.id), ("first_name", Json.quote r.firstName),
    ("last_name", Json.quote r.lastName), ("salary", r.salary.text .json)]

def ofTree? (t : Json.Tree) : Option Record :=
  match t.toFields? ["id", "first_name", "last_name", "salary"] with
  | some [id, first, last, salary] => do
    return ⟨← Json.required Json.Tree.toUInt64? id, ← Json.required Json.Tree.toText? first,
      ← Json.required Json.Tree.toText? last, ← Json.required Json.Tree.toBinary64? salary⟩
  | _ => none

def ofJson? (b : Bytes) : Option Record := (Json.Tree.read b).bind ofTree?

end Record

namespace Value

def record? : Value → Option Record
  | .record r => some r
  | _ => none

def salary? (v : Value) : Option Binary64 := v.record?.map Record.salary

def toJson : Value → String
  | .int n => Json.object [("int", toString n)]
  | .sample id => Json.object [("sample", Json.object [("id", toString id)])]
  | .record r => Json.object [("record", r.toJson)]

def ofTree? (t : Json.Tree) : Option Value :=
  match t.toChoice? with
  | some ("int", some t) => t.toInt64?.map .int
  | some ("sample", some t) =>
    match t.toFields? ["id"] with
    | some [id] => (Json.required Json.Tree.toUInt64? id).map .sample
    | _ => none
  | some ("record", some t) => (Record.ofTree? t).map .record
  | _ => none

def ofJson? (b : Bytes) : Option Value := (Json.Tree.read b).bind ofTree?

end Value

end CacheBench
