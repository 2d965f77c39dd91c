import CacheBench.Text.Bytes

/-!
# JSON trees

`Tree.read` checks bytes against the JSON grammar and keeps what they say without interpreting it:
a string stays the bytes between its quotes, a number stays a `Literal` of its digits. Whoever
takes a value out of the tree decides what it means, so a part that nobody takes only has to be
grammatical.
-/

namespace CacheBench.Json

/-- A number as it is spelled. The fraction is empty when there is no point; the exponent holds
its sign, true for minus. -/
structure Literal where
  negative : Bool
  whole : List Nat
  fraction : List Nat
  exponent : Option (Bool × List Nat)
deriving DecidableEq

inductive Tree
  | null
  | bool (value : Bool)
  | number (literal : Literal)
  | string (raw : Bytes)
  | array (items : List Tree)
  | object (members : List (Bytes × Tree))

def isBlank (c : UInt8) : Bool :=
  c = ascii ' ' || c = ascii '\t' || c = ascii '\n' || c = ascii '\r'

def dropBlank (s : Bytes) : Bytes := s.dropWhile isBlank

def isDigit (c : UInt8) : Bool := ascii '0' ≤ c && c ≤ ascii '9'

def hexDigit? (c : UInt8) : Option Nat :=
  if isDigit c then some (c.toNat - 48)
  else if ascii 'a' ≤ c && c ≤ ascii 'f' then some (c.toNat - 87)
  else if ascii 'A' ≤ c && c ≤ ascii 'F' then some (c.toNat - 55)
  else none

def hexQuad? (a b c d : UInt8) : Option Nat := do
  return 4096 * (← hexDigit? a) + 256 * (← hexDigit? b) + 16 * (← hexDigit? c) + (← hexDigit? d)

/-- The byte that a one-letter escape stands for. -/
def shortEscape? (c : UInt8) : Option UInt8 :=
  if c = ascii '"' then some (ascii '"')
  else if c = ascii '\\' then some (ascii '\\')
  else if c = ascii '/' then some (ascii '/')
  else if c = ascii 'b' then some 0x08
  else if c = ascii 'f' then some 0x0c
  else if c = ascii 'n' then some (ascii '\n')
  else if c = ascii 'r' then some (ascii '\r')
  else if c = ascii 't' then some (ascii '\t')
  else none

/-- The bytes up to the closing quote, and what follows it. -/
def scanString : Bytes → Option (Bytes × Bytes)
  | [] => none
  | c :: r =>
    if c = ascii '"' then some ([], r)
    else if c = ascii '\\' then
      match r with
      | [] => none
      | e :: r =>
        if e = ascii 'u' then
          match r with
          | a :: b :: c' :: d :: r =>
            if (hexQuad? a b c' d).isSome then
              (scanString r).map fun (raw, t) => (c :: e :: a :: b :: c' :: d :: raw, t)
            else none
          | _ => none
        else if (shortEscape? e).isSome then
          (scanString r).map fun (raw, t) => (c :: e :: raw, t)
        else none
    else if c < 0x20 then none
    else (scanString r).map fun (raw, t) => (c :: raw, t)

def scanDigits (s : Bytes) : List Nat × Bytes :=
  ((s.takeWhile isDigit).map fun c => c.toNat - 48, s.dropWhile isDigit)

def scanExponent (s : Bytes) : Option (Option (Bool × List Nat) × Bytes) :=
  match s with
  | c :: r =>
    if c = ascii 'e' || c = ascii 'E' then
      let (negative, r) := match r with
        | d :: t => if d = ascii '-' then (true, t) else if d = ascii '+' then (false, t) else (false, r)
        | [] => (false, [])
      let (ds, t) := scanDigits r
      if ds.isEmpty then none else some (some (negative, ds), t)
    else some (none, s)
  | [] => some (none, [])

def scanFraction (s : Bytes) : Option (List Nat × Bytes) :=
  match s with
  | c :: r =>
    if c = ascii '.' then
      let (ds, t) := scanDigits r
      if ds.isEmpty then none else some (ds, t)
    else some ([], s)
  | [] => some ([], [])

/-- A number literal. A leading zero stands alone before the point. -/
def scanLiteral (s : Bytes) : Option (Literal × Bytes) :=
  let (negative, s) := match s with
    | c :: r => if c = ascii '-' then (true, r) else (false, s)
    | [] => (false, [])
  let (whole, s) := scanDigits s
  if whole.isEmpty || (whole.head? = some 0 && whole.length ≠ 1) then none
  else do
    let (fraction, s) ← scanFraction s
    let (exponent, s) ← scanExponent s
    return (⟨negative, whole, fraction, exponent⟩, s)

def dropWord (word : String) (s : Bytes) : Option Bytes :=
  if (utf8 word).isPrefixOf s then some (s.drop (utf8 word).length) else none

mutual

/-- A value and what follows it. Each byte costs at most two units of fuel. -/
def readValue : Nat → Bytes → Option (Tree × Bytes)
  | 0, _ => none
  | fuel + 1, s =>
    match dropBlank s with
    | [] => none
    | c :: r =>
      if c = ascii '{' then
        match dropBlank r with
        | [] => none
        | d :: t =>
          if d = ascii '}' then some (.object [], t)
          else (readMembers fuel (d :: t)).map fun (ms, u) => (.object ms, u)
      else if c = ascii '[' then
        match dropBlank r with
        | [] => none
        | d :: t =>
          if d = ascii ']' then some (.array [], t)
          else (readItems fuel (d :: t)).map fun (xs, u) => (.array xs, u)
      else if c = ascii '"' then (scanString r).map fun (raw, t) => (.string raw, t)
      else if c = ascii 'n' then (dropWord "ull" r).map fun t => (.null, t)
      else if c = ascii 't' then (dropWord "rue" r).map fun t => (.bool true, t)
      else if c = ascii 'f' then (dropWord "alse" r).map fun t => (.bool false, t)
      else (scanLiteral (c :: r)).map fun (n, t) => (.number n, t)

def readItems : Nat → Bytes → Option (List Tree × Bytes)
  | 0, _ => none
  | fuel + 1, s => do
    let (x, r) ← readValue fuel s
    match dropBlank r with
    | [] => none
    | c :: t =>
      if c = ascii ',' then
        let (xs, u) ← readItems fuel t
        return (x :: xs, u)
      else if c = ascii ']' then some ([x], t)
      else none

def readMembers : Nat → Bytes → Option (List (Bytes × Tree) × Bytes)
  | 0, _ => none
  | fuel + 1, s =>
    match dropBlank s with
    | [] => none
    | q :: r =>
      if q ≠ ascii '"' then none
      else do
        let (key, r) ← scanString r
        match dropBlank r with
        | [] => none
        | c :: r =>
          if c ≠ ascii ':' then none
          else
            let (x, r) ← readValue fuel r
            match dropBlank r with
            | [] => none
            | c :: t =>
              if c = ascii ',' then
                let (ms, u) ← readMembers fuel t
                return ((key, x) :: ms, u)
              else if c = ascii '}' then some ([(key, x)], t)
              else none

end

def Tree.read (s : Bytes) : Option Tree := do
  let (t, r) ← readValue (2 * s.length + 2) s
  if (dropBlank r).isEmpty then some t else none

end CacheBench.Json
