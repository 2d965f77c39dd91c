import CacheBench.Record
import CacheBench.Text.Quoted

/-!
# Range predicates

A predicate selects the records whose id or salary lies in a half-open interval. Ids are compared
as numbers, after conversion.
-/

namespace CacheBench

/-- The numeric attribute of a record that a predicate looks at. -/
inductive Field
  | id
  | salary
deriving DecidableEq

/-- A name, in lower case, that no field has. -/
structure UnknownField where
  name : String
deriving DecidableEq

def UnknownField.message (e : UnknownField) : String :=
  "unknown query field " ++ Text.quoted e.name

namespace Field

def value (f : Field) (r : Record) : Binary64 :=
  match f with
  | .id => .ofNat r.id.toNat
  | .salary => r.salary

def name : Field → String
  | .id => "id"
  | .salary => "salary"

instance : ToString Field := ⟨name⟩

def ofText (s : String) : Except UnknownField Field :=
  match s.map Char.toLower with
  | "id" => .ok .id
  | "salary" => .ok .salary
  | name => .error ⟨name⟩

def toJson (f : Field) : String := Json.quote f.name

def ofTree? (t : Json.Tree) : Option Field :=
  match t.toName? with
  | some "id" => some .id
  | some "salary" => some .salary
  | _ => none

end Field

/-- The records with `min ≤ field < max`. -/
structure Predicate where
  field : Field
  min : Binary64
  max : Binary64
deriving DecidableEq

namespace Predicate

def salary (min max : Binary64) : Predicate := ⟨.salary, min, max⟩

def holds (p : Predicate) (r : Record) : Bool :=
  p.min.le (p.field.value r) && (p.field.value r).lt p.max

def text (p : Predicate) : String := s!"{p.field} in [{p.min}, {p.max})"

instance : ToString Predicate := ⟨text⟩

def toJson (p : Predicate) : String :=
  Json.object [("field", p.field.toJson), ("min", p.min.text .json), ("max", p.max.text .json)]

def ofTree? (t : Json.Tree) : Option Predicate :=
  match t.toFields? ["field", "min", "max"] with
  | some [field, min, max] => do
    return ⟨← Json.required Field.ofTree? field, ← Json.required Json.Tree.toBinary64? min,
      ← Json.required Json.Tree.toBinary64? max⟩
  | _ => none

end Predicate

end CacheBench
