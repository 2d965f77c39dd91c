import CacheBench.Json.Number
import CacheBench.Json.Text

/-!
# Shapes of JSON values

Readers that take a value of a known shape out of a tree. A structure is an object with its fields
in any order, unknown ones ignored, or an array of its fields in order. A choice is a string or an
object with one member, the name of the alternative and its payload.
-/

namespace CacheBench.Json

namespace Tree

def toBool? : Tree → Option Bool
  | .bool b => some b
  | _ => none

def toText? : Tree → Option String
  | .string raw => unquote? raw
  | _ => none

def toUInt64? : Tree → Option UInt64
  | .number n => n.toUInt64?
  | _ => none

def toInt64? : Tree → Option Int64
  | .number n => n.toInt64?
  | _ => none

def toBinary64? : Tree → Option Binary64
  | .number n => n.toBinary64?
  | _ => none

def toOption? {α : Type} (read : Tree → Option α) : Tree → Option (Option α)
  | .null => some none
  | t => (read t).map some

/-- The members of an object under their names. -/
def toMembers? : Tree → Option (List (String × Tree))
  | .object ms => ms.mapM fun (k, t) => (unquote? k).map (·, t)
  | _ => none

/-- The value of each field of a structure, if present: one value for each name. A known field
that occurs twice is an error, and so is an array with too many items. -/
def toFields? (names : List String) : Tree → Option (List (Option Tree))
  | .array items =>
    if items.length ≤ names.length then
      some (items.map some ++ List.replicate (names.length - items.length) none)
    else none
  | t => do
    let ms ← t.toMembers?
    names.mapM fun name =>
      match ms.filter (·.1 = name) with
      | [] => some none
      | [(_, v)] => some (some v)
      | _ => none

/-- The name of an alternative and its payload, if it has one. -/
def toChoice? : Tree → Option (String × Option Tree)
  | .string raw => (unquote? raw).map (·, none)
  | .object [(k, t)] => (unquote? k).map (·, some t)
  | _ => none

/-- An alternative without payload: its name, alone or with `null`. -/
def toName? (t : Tree) : Option String :=
  match t.toChoice? with
  | some (name, none) => some name
  | some (name, some .null) => some name
  | _ => none

end Tree

def required {α : Type} (read : Tree → Option α) (t : Option Tree) : Option α := t.bind read

def defaulted {α : Type} (fallback : α) (read : Tree → Option α) : Option Tree → Option α
  | none => some fallback
  | some t => read t

def object (members : List (String × String)) : String :=
  "\x7b" ++ ",".intercalate (members.map fun (k, v) => quote k ++ ":" ++ v) ++ "\x7d"

def lines (members : List (String × String)) : String :=
  "\x7b\n" ++ ",\n".intercalate (members.map fun (k, v) => "  " ++ quote k ++ ": " ++ v) ++ "\n\x7d"

def array (items : List String) : String := "[" ++ ",".intercalate items ++ "]"

def bool (b : Bool) : String := if b then "true" else "false"

def option {α : Type} (write : α → String) : Option α → String
  | none => "null"
  | some x => write x

end CacheBench.Json
