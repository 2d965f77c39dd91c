import CacheBench.Cache
import CacheBench.Report
import CacheBench.Wire.Frame

/-!
# Commands

A command frame is an array whose first part names the command, in any case, and whose other parts
are its arguments. `Command.ofFrame` reads one; an empty array is no command at all.
`Command.toFrame` is the frame that a client sends.
-/

namespace CacheBench

inductive Command
  | ping
  | use (name : String)
  | get (k : Key)
  | set (k : Key) (v : Value)
  | mset (b : Batch)
  | query (p : Predicate)
  | size

inductive CommandError
  | notArray
  | noName
  | unknown (name : String)
  | arity (name expects : String)
  | noCacheName
  | noKey
  | badKey (text : String)
  | noValue
  | malformedValue (json : Bytes)
  | noField
  | unknownField (e : UnknownField)
  | noBound
  | badBound (text : String)
deriving DecidableEq

namespace CommandError

def report : CommandError → Report
  | .notArray => .text "expected array frame"
  | .noName => .text "invalid command"
  | .unknown name => .text s!"unknown command {name}"
  | .arity name expects => .text s!"{name} expects {expects}"
  | .noCacheName => .text "invalid cache name"
  | .noKey => .text "invalid key"
  | .badKey text => .text ("invalid key " ++ Text.quoted text)
  | .noValue => .text "invalid value"
  | .malformedValue _ => .malformedJson
  | .noField => .text "invalid query field"
  | .unknownField e => .text e.message
  | .noBound => .text "invalid bound"
  | .badBound text => .text ("invalid bound " ++ Text.quoted text)

/-- The text of the error. Of a malformed value it is what the JSON reader says, as it is: `words`
of the bytes. -/
def text (words : Bytes → String) : CommandError → String
  | .malformedValue json => words json
  | e => e.report.message

end CommandError

namespace Frame

def key (f : Frame) : Except CommandError Key :=
  match f.text? with
  | none => .error .noKey
  | some s =>
    match Key.ofText? s with
    | some k => .ok k
    | none => .error (.badKey s)

def value : Frame → Except CommandError Value
  | .bulk b | .simple b =>
    match Value.ofJson? b with
    | some v => .ok v
    | none => .error (.malformedValue b)
  | _ => .error .noValue

def field (f : Frame) : Except CommandError Field :=
  match f.text? with
  | none => .error .noField
  | some s => (Field.ofText s).mapError .unknownField

def bound (f : Frame) : Except CommandError Binary64 :=
  match f.text? with
  | none => .error .noBound
  | some s =>
    match Binary64.ofText? s with
    | some x => .ok x
    | none => .error (.badBound s)

end Frame

namespace Command

def pairs : List Frame → Except CommandError (List (Key × Value))
  | k :: v :: rest => do
    let k ← k.key
    let v ← v.value
    return (k, v) :: (← pairs rest)
  | _ => .ok []

def ofParts (name : String) (args : List Frame) : Except CommandError Command :=
  match name, args with
  | "PING", _ => .ok .ping
  | "USE", [cache] =>
    match cache.text? with
    | some s => .ok (.use s)
    | none => .error .noCacheName
  | "USE", _ => .error (.arity name "1 argument")
  | "GET", [k] => do return .get (← k.key)
  | "GET", _ => .error (.arity name "1 argument")
  | "SET", [k, v] => do
    let k ← k.key
    return .set k (← v.value)
  | "SET", _ => .error (.arity name "2 arguments")
  | "MSET", args =>
    if args.isEmpty || args.length % 2 = 1 then .error (.arity name "key/value pairs")
    else do return .mset (Batch.ofList (← pairs args))
  | "QUERY", [field, min, max] => do
    let field ← field.field
    let min ← min.bound
    return .query ⟨field, min, ← max.bound⟩
  | "QUERY", _ => .error (.arity name "3 arguments")
  | "DBSIZE", [] => .ok .size
  | "DBSIZE", _ => .error (.arity name "0 arguments")
  | _, _ => .error (.unknown name)

/-- The command of a frame, or none for an empty array. -/
def ofFrame : Frame → Except CommandError (Option Command)
  | .array [] => .ok none
  | .array (name :: args) =>
    match name.text? with
    | some s => (ofParts (s.map Char.toUpper) args).map some
    | none => .error .noName
  | _ => .error .notArray

def parts : Command → List String
  | .ping => ["PING"]
  | .use name => ["USE", name]
  | .get k => ["GET", toString k]
  | .set k v => ["SET", toString k, v.toJson]
  | .mset b => "MSET" :: b.toList.flatMap fun (k, v) => [toString k, v.toJson]
  | .query p => ["QUERY", p.field.name, toString p.min, toString p.max]
  | .size => ["DBSIZE"]

def toFrame (c : Command) : Frame := .array (c.parts.map Frame.ofText)

end Command

end CacheBench
