import CacheBench.Json.Tree
import CacheBench.Number.Binary64

/-!
# JSON numbers

`Literal.toInt?` reads a literal without fraction and exponent. `Literal.toBinary64?` reads any
literal as a floating number the fast way: as many digits as fit in 64 bits become a significand,
which is converted and then scaled by one power of ten, two roundings in all. The result can be
off by a unit in the last place. A literal too large for a finite number is refused; one too small
is zero.
-/

namespace CacheBench.Json

structure Gathered where
  significand : Nat
  exponent : Int
deriving DecidableEq

/-- Whether a significand stays below `2 ^ 64` with one more digit. -/
def fits (significand digit : Nat) : Bool := significand * 10 + digit < 2 ^ 64

/-- Digits before the point: once one does not fit, it and all later ones count as zeros. -/
def gatherWhole (g : Gathered) : List Nat → Gathered
  | [] => g
  | d :: ds =>
    if fits g.significand d then gatherWhole ⟨g.significand * 10 + d, g.exponent⟩ ds
    else ⟨g.significand, g.exponent + (d :: ds).length⟩

/-- Digits after the point: once one does not fit, it and all later ones are dropped. -/
def gatherFraction (g : Gathered) : List Nat → Gathered
  | [] => g
  | d :: ds =>
    if fits g.significand d then gatherFraction ⟨g.significand * 10 + d, g.exponent - 1⟩ ds
    else g

/-- Exponents are kept in 32 bits. -/
def exponentBound : Int := 2 ^ 31 - 1

def clampExponent (e : Int) : Int := max (-exponentBound - 1) (min e exponentBound)

/-- Divides by `10 ^ 308` a number of times. -/
def lower (f : Binary64) : Nat → Binary64
  | 0 => f
  | n + 1 => if f.isZero then f else lower (f / .ofNat (10 ^ 308)) n

def Gathered.scale? (g : Gathered) : Option Binary64 :=
  let f := Binary64.ofNat g.significand
  if 0 ≤ g.exponent then
    if g.exponent ≤ 308 then
      let r := f * .ofNat (10 ^ g.exponent.toNat)
      if r.isInfinite then none else some r
    else if f.isZero then some f
    else none
  else
    let steps := ((-g.exponent).toNat - 1) / 308
    some (lower f steps / .ofNat (10 ^ ((-g.exponent).toNat - 308 * steps)))

namespace Literal

def wholeValue (n : Literal) : Nat := n.whole.foldl (fun v d => 10 * v + d) 0

/-- An integer literal. Minus zero is not one. -/
def toInt? (n : Literal) : Option Int :=
  if n.fraction.isEmpty && n.exponent.isNone then
    if n.negative then
      if n.wholeValue = 0 then none else some (-(n.wholeValue : Int))
    else some n.wholeValue
  else none

def toUInt64? (n : Literal) : Option UInt64 :=
  n.toInt?.bind fun i => if 0 ≤ i ∧ i < 2 ^ 64 then some (.ofNat i.toNat) else none

def toInt64? (n : Literal) : Option Int64 :=
  n.toInt?.bind fun i => if -2 ^ 63 ≤ i ∧ i < 2 ^ 63 then some (.ofInt i) else none

def gathered (n : Literal) : Gathered := gatherFraction (gatherWhole ⟨0, 0⟩ n.whole) n.fraction

/-- The magnitude of the number. An exponent that needs more than 32 bits makes it zero, unless it
is positive and the digits are not all zeros. -/
def magnitude? (n : Literal) : Option Binary64 :=
  let g := n.gathered
  match n.exponent with
  | none => g.scale?
  | some (negative, ds) =>
    let e : Nat := ds.foldl (fun v d => 10 * v + d) 0
    if exponentBound < e then
      if negative || g.significand = 0 then some .zero else none
    else
      let e := clampExponent (if negative then g.exponent - e else g.exponent + e)
      (⟨g.significand, e⟩ : Gathered).scale?

def toBinary64? (n : Literal) : Option Binary64 :=
  n.magnitude?.map fun x => if n.negative then -x else x

end Literal

end CacheBench.Json
