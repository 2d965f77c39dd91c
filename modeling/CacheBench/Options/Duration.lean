import CacheBench.Number.Numeral
import CacheBench.Text.Blank

/-!
# Durations

A duration is written as amounts with units, such as `1h 30m` or `1.5s`. There may be blanks between
the digits of an amount, before its unit and between the amounts. Nothing is rounded: a fraction has
to come to a whole number of nanoseconds, or of seconds for units longer than a minute. Counts are
words of 64 bits on the way.
-/

namespace CacheBench.Duration

/-- Counts stay below this bound. -/
def bound : Nat := 2 ^ 64

def second : Nat := 10 ^ 9

def unit? (name : String) : Option Nat :=
  if ["nanos", "nsec", "ns"].contains name then some 1
  else if ["usec", "us", "µs"].contains name then some (10 ^ 3)
  else if ["millis", "msec", "ms"].contains name then some (10 ^ 6)
  else if ["seconds", "second", "secs", "sec", "s"].contains name then some second
  else if ["minutes", "minute", "min", "mins", "m"].contains name then some (60 * second)
  else if ["hours", "hour", "hr", "hrs", "h"].contains name then some (3600 * second)
  else if ["days", "day", "d"].contains name then some (86400 * second)
  else if ["weeks", "week", "wk", "wks", "w"].contains name then some (604800 * second)
  else if ["months", "month", "M"].contains name then some (2630016 * second)
  else if ["years", "year", "yr", "yrs", "y"].contains name then some (31557600 * second)
  else none

/-! ## Amounts -/

structure Amount where
  whole : Nat
  /-- The digits after the point, if there is one. -/
  fraction : Option (List Char)
  /-- Nanoseconds of the unit. -/
  unit : Nat

namespace Amount

/-- The grain and the number of grains of the whole part. Seconds and longer units count in
seconds. -/
def wholeGrains? (a : Amount) : Option (Nat × Nat) :=
  let grain := if a.unit < second then 1 else second
  let count := a.whole * (a.unit / grain)
  if count < bound then some (grain, count) else none

/-- The grain and the number of grains of the fraction. Minutes and shorter units count in
nanoseconds, of which none has a fraction. -/
def fractionGrains? (a : Amount) (digits : List Char) : Option (Nat × Nat) :=
  let grain := if a.unit ≤ 60 * second then 1 else second
  let count := digitsValue digits * (a.unit / grain)
  let parts := 10 ^ digits.length
  if digits ≠ [] ∧ 1 < a.unit ∧ parts < bound ∧ count < bound ∧ count % parts = 0 then
    some (grain, count / parts)
  else none

/-- Adds grains to nanoseconds. Seconds, and nanoseconds on top of whole seconds, stay below the
bound. -/
def addGrains? (total : Nat) : Nat × Nat → Option Nat
  | (grain, count) =>
    let sum := total + grain * count
    if (grain = 1 ∧ bound ≤ total % second + count) ∨ bound ≤ sum / second then none else some sum

def addTo? (a : Amount) (total : Nat) : Option Nat := do
  let total ← addGrains? total (← a.wholeGrains?)
  match a.fraction with
  | some digits => addGrains? total (← a.fractionGrains? digits)
  | none => return total

end Amount

/-! ## Reading -/

def isUnitLetter (c : Char) : Bool := c.isAlpha || c = 'µ'

/-- Digits with blanks between them, and what comes after. -/
def takeDigits (cs : List Char) : List Char × List Char :=
  let inNumber (c : Char) : Bool := c.isDigit || Text.isBlank c
  ((cs.takeWhile inNumber).filter Char.isDigit, cs.dropWhile inNumber)

def amount? (cs : List Char) : Option (Amount × List Char) := do
  let (digits, rest) := takeDigits cs
  let (fraction, rest) := match rest with
    | '.' :: r => ((takeDigits r).map some id)
    | r => (none, r)
  let unit ← unit? (String.ofList (rest.takeWhile isUnitLetter))
  if digits.isEmpty || bound ≤ digitsValue digits then none
  else return ({ whole := digitsValue digits, fraction, unit }, rest.dropWhile isUnitLetter)

/-- Adds amounts, of which there is at least one, to nanoseconds. -/
def addAll? : Nat → Nat → List Char → Option Nat
  | 0, _, _ => none
  | fuel + 1, total, cs => do
    let (a, rest) ← amount? cs
    let total ← a.addTo? total
    let rest := rest.dropWhile Text.isBlank
    if rest.isEmpty then return total else addAll? fuel total rest

/-- The nanoseconds of a text. Only nothing at all needs no unit. -/
def ofText? (s : String) : Option Nat :=
  if s = "0" then some 0 else addAll? s.length 0 s.toList

end CacheBench.Duration
