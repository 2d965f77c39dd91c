import CacheBench.Number.Binary64

/-!
# Numerals

A numeral is number text split at its marks: a sign, digits before and after the point, and a
power of ten. `Numeral.round` is the nearest number. `Binary64.ofText?` reads number text that
may also be `inf`, `infinity` or `nan` in any case, and `wholeNumber?` a whole number.
-/

namespace CacheBench

def digitsValue (ds : List Char) : Nat :=
  ds.foldl (fun n c => 10 * n + (c.toNat - '0'.toNat)) 0

/-- One or more digits after an optional plus sign. -/
def wholeNumber? (s : String) : Option Nat :=
  let ds := match s.toList with
    | '+' :: r => r
    | r => r
  if ds.isEmpty || !ds.all Char.isDigit then none else some (digitsValue ds)

/-- The number `digits * 10 ^ exponent` with a sign. -/
structure Numeral where
  negative : Bool
  digits : Nat
  exponent : Int
deriving DecidableEq

namespace Numeral

/-- Powers of ten far outside the range of finite numbers are not computed: with at least one
nonzero digit above `10 ^ 310` the number is infinite, and below `10 ^ -345` it is zero. -/
def round (n : Numeral) : Binary64 :=
  if n.digits = 0 then .ofMagnitude n.negative 0
  else
    let leading := n.exponent + (Nat.toDigits 10 n.digits).length - 1
    if 310 < leading then .infinity n.negative
    else if leading < -345 then .ofMagnitude n.negative 0
    else .ofRatio n.negative (n.digits * 10 ^ n.exponent.toNat) (10 ^ (-n.exponent).toNat)

end Numeral

namespace Binary64

/-- The exponent part of number text: nothing, or `e`, an optional sign and digits. -/
def exponentOfText? : List Char → Option Int
  | [] => some 0
  | c :: r =>
    if c.toLower = 'e' then
      let (negative, ds) := match r with
        | '-' :: t => (true, t)
        | '+' :: t => (false, t)
        | t => (false, t)
      if ds.isEmpty || !ds.all Char.isDigit then none
      else some (if negative then -(digitsValue ds : Int) else digitsValue ds)
    else none

def unsignedOfText? (negative : Bool) (cs : List Char) : Option Binary64 :=
  let word := (String.ofList cs).map Char.toLower
  if word = "inf" ∨ word = "infinity" then some (infinity negative)
  else if word = "nan" then some (if negative then -nan else nan)
  else
    let whole := cs.takeWhile Char.isDigit
    let rest := cs.dropWhile Char.isDigit
    let (fraction, rest) := match rest with
      | '.' :: r => (r.takeWhile Char.isDigit, r.dropWhile Char.isDigit)
      | r => ([], r)
    if whole.isEmpty && fraction.isEmpty then none
    else (exponentOfText? rest).map fun e =>
      Numeral.round ⟨negative, digitsValue (whole ++ fraction), e - fraction.length⟩

def ofText? (s : String) : Option Binary64 :=
  match s.toList with
  | '-' :: r => unsignedOfText? true r
  | '+' :: r => unsignedOfText? false r
  | r => unsignedOfText? false r

end Binary64

end CacheBench
