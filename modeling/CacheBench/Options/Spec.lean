import CacheBench.Number.Numeral
import CacheBench.Text.Blank
import CacheBench.Text.Terminal

/-!
# Options

An `OptionSpec` describes one command-line option that sets something in a `α`: a flag, or an option
with a value. `OptionSpec.read` reads command-line words against a list of specs, and takes options
that no word gives from the environment. `OptionSpec.usage` is their help text.

The value of an option is the word after it, if that word is no option, and is looked at only when
the next option comes or the words end. So an unknown word is reported before a bad value that
stands just before it.
-/

namespace CacheBench

inductive OptionError
  /-- No value, or one that is not among the values allowed. -/
  | invalidValue (option : String) (value : Option String)
  /-- Text that cannot be read. -/
  | malformedValue (option value : String)
  | unknownArgument (word : String)
  | repeated (option : String)
  | unneededValue (option : String)
  | missing (option : String)
  | help
deriving DecidableEq

namespace OptionError

def message : OptionError → String
  | .invalidValue option none => s!"a value is required for '--{option}' but none was supplied"
  | .invalidValue option (some value) | .malformedValue option value =>
    s!"invalid value '{value}' for '--{option}'"
  | .unknownArgument word => s!"unexpected argument '{word}' found"
  | .repeated option => s!"the argument '--{option}' cannot be used multiple times"
  | .unneededValue option => s!"unexpected value for '--{option}' found; no more were expected"
  | .missing option => s!"the required argument '--{option}' was not provided"
  | .help => "help"

end OptionError

inductive ValueFault
  | invalid
  | malformed

inductive OptionAction (α : Type)
  | flag (set : α → α)
  | value (read : String → Except ValueFault (α → α))

structure OptionSpec (α : Type) where
  /-- The name without its dashes. -/
  name : String
  help : String := ""
  /-- The environment variable that stands in for the option. -/
  env : Option String := none
  /-- The default as help shows it. -/
  default : Option String := none
  /-- The values allowed, if only some are. -/
  choices : List String := []
  required : Bool := false
  action : OptionAction α

abbrev Variables := String → Option String

/-! ## Values -/

namespace OptionAction

variable {α : Type}

def text (set : String → α → α) : OptionAction α := .value fun s => .ok (set s)

/-- A path is not empty. -/
def path (set : String → α → α) : OptionAction α :=
  .value fun s => if s.isEmpty then .error .invalid else .ok (set s)

def word64? (s : String) : Option Nat :=
  (wholeNumber? s).bind fun n => if n < 2 ^ 64 then some n else none

def number (set : Nat → α → α) : OptionAction α :=
  .value fun s =>
    match word64? s with
    | some n => .ok (set n)
    | none => .error .malformed

/-- A port may be a negative zero. -/
def signedPort? (s : String) : Option UInt16 :=
  match s.toList with
  | '-' :: ds => if !ds.isEmpty && ds.all (· = '0') then some 0 else none
  | _ => (wholeNumber? s).bind fun n => if n < 2 ^ 16 then some (.ofNat n) else none

def port (set : UInt16 → α → α) : OptionAction α :=
  .value fun s =>
    match signedPort? s with
    | some n => .ok (set n)
    | none => .error .malformed

def choice {β : Type} (all : List β) (name : β → String) (set : β → α → α) : OptionAction α :=
  .value fun s =>
    match all.find? fun b => name b = s with
    | some b => .ok (set b)
    | none => .error .invalid

def on {β : Type} (modify : (α → α) → β → β) : OptionAction α → OptionAction β
  | .flag set => .flag (modify set)
  | .value read => .value fun s => (read s).map modify

end OptionAction

namespace OptionSpec

variable {α : Type}

def on {β : Type} (modify : (α → α) → β → β) (spec : OptionSpec α) : OptionSpec β :=
  { spec with action := spec.action.on modify }

/-! ## Reading -/

structure Reading (α : Type) where
  settings : α
  /-- The options that are set. -/
  given : List String := []
  /-- An option that is not set yet, with its value if that was seen. -/
  pending : Option (OptionSpec α × Option String) := none

/-- Sets an option, which may be done once. -/
def set (spec : OptionSpec α) (value : Option String) (r : Reading α) :
    Except OptionError (Reading α) := do
  let apply (f : α → α) : Except OptionError (Reading α) :=
    .ok { r with settings := f r.settings, given := spec.name :: r.given }
  match spec.action, value with
  | .flag f, _ => if spec.name ∈ r.given then throw (.repeated spec.name) else apply f
  | .value _, none => throw (.invalidValue spec.name none)
  | .value read, some s =>
    if spec.name ∈ r.given then throw (.repeated spec.name)
    match read s with
    | .ok f => apply f
    | .error .invalid => throw (.invalidValue spec.name s)
    | .error .malformed => throw (.malformedValue spec.name s)

def resolve (r : Reading α) : Except OptionError (Reading α) :=
  match r.pending with
  | some (spec, value) => spec.set value { r with pending := none }
  | none => .ok r

/-- An option by its name, with the value that is attached to it. -/
def long (specs : List (OptionSpec α)) (name : String) (value : Option String) (r : Reading α) :
    Except OptionError (Reading α) :=
  if name = "help" then
    if value.isSome then .error (.unneededValue name)
    else do
      let _ ← resolve r
      throw .help
  else
    match specs.find? fun spec => spec.name = name with
    | none => .error (.unknownArgument ("--" ++ name))
    | some spec =>
      match spec.action, value with
      | .flag _, some _ => .error (.unneededValue name)
      | .flag _, none | .value _, some _ => do spec.set value (← resolve r)
      | .value _, none => do
        let r ← resolve r
        return { r with pending := some (spec, none) }

def word (specs : List (OptionSpec α)) (r : Reading α) (w : String) :
    Except OptionError (Reading α) :=
  match w.toList with
  | '-' :: '-' :: rest =>
    let value := match rest.dropWhile (· ≠ '=') with
      | _ :: value => some (String.ofList value)
      | [] => none
    long specs (String.ofList (rest.takeWhile (· ≠ '='))) value r
  | '-' :: c :: _ =>
    if c = 'h' then do
      let _ ← resolve r
      throw .help
    else .error (.unknownArgument w)
  | _ =>
    match r.pending with
    | some (spec, none) => .ok { r with pending := some (spec, some w) }
    | _ => .error (.unknownArgument w)

/-- All words. After `--` there is no option, so no word is understood. -/
def words (specs : List (OptionSpec α)) (r : Reading α) : List String → Except OptionError (Reading α)
  | [] => resolve r
  | ["--"] => resolve r
  | "--" :: w :: _ => .error (.unknownArgument w)
  | w :: ws => do words specs (← word specs r w) ws

/-- Sets an option from its variable, if it is not set yet. -/
def fallBack (env : Variables) (r : Reading α) (spec : OptionSpec α) :
    Except OptionError (Reading α) :=
  match spec.env.bind env with
  | some value => if spec.name ∈ r.given then .ok r else spec.set (some value) r
  | none => .ok r

def read (specs : List (OptionSpec α)) (env : Variables) (start : α) (ws : List String) :
    Except OptionError α := do
  let r ← words specs { settings := start } ws
  let r ← specs.foldlM (fallBack env) r
  match specs.find? fun spec => spec.required && spec.name ∉ r.given with
  | some spec => throw (.missing spec.name)
  | none => return r.settings

/-! ## Help -/

def valueName (spec : OptionSpec α) : String :=
  spec.name.map fun c => if c = '-' then '_' else c.toUpper

def note (label text : String) : String := s!"[{label}: {text}]"

def notes (spec : OptionSpec α) (env : Variables) : List String :=
  (if spec.help.isEmpty then [] else [spec.help]) ++
    (spec.env.map fun v => note "env" (v ++ "=" ++ (env v).getD "")).toList ++
    (spec.default.map (note "default")).toList ++
    (if spec.choices.isEmpty then [] else [note "possible values" (", ".intercalate spec.choices)])

/-- What comes after the name of an option in help. Lines of a variable's value have the margin of
the notes. -/
def usageTail (spec : OptionSpec α) (env : Variables) : String :=
  let value := match spec.action with
    | .flag _ => ""
    | .value _ => s!" <{spec.valueName}>"
  let notes := (" ".intercalate (spec.notes env)).replace "\n" "\n          "
  s!"{value}\n          {notes}\n"

/-- The options in help, each with two lines. The names are written in a style of their own, whose
terminal commands end those that a variable's value leaves open. -/
def usageOptions (env : Variables) : List (OptionSpec α) → String
  | [] => "-h, --help\n          Print help (see more with '--help')\n"
  | spec :: specs =>
    let margin := if specs.isEmpty then "  " else "      "
    s!"--{spec.name}" ++ Text.Terminal.plain (spec.usageTail env ++ margin) ++ usageOptions env specs

def usage (specs : List (OptionSpec α)) (program about : String) (env : Variables) : String :=
  s!"{about}\n\nUsage: {program} [OPTIONS]\n\nOptions:\n" ++
    (if specs.isEmpty then "  " else "      ") ++ usageOptions env specs

end OptionSpec

end CacheBench
