import CacheBench.Number.Binary64

/-!
# Shortest decimals

`shortest` writes a positive finite number as the decimal with the fewest digits that rounds back
to it, and among those the nearest one. It searches decimal grids from the coarsest to the finest
for one with a point in the rounding interval of the number; only the two grid points around the
number have to be tried, since the interval contains the number.
-/

namespace CacheBench

structure Decimal where
  digits : Nat
  exponent : Int
deriving DecidableEq, Inhabited

/-- Which of two equally near decimals is taken. -/
inductive Tie
  | up
  | even
deriving DecidableEq

namespace Decimal

def leading (d : Decimal) : Int := d.exponent + (Nat.toDigits 10 d.digits).length - 1

end Decimal

namespace Binary64

/-- Quarters of the unit of the last place: the number and its rounding interval, over
`2 ^ (binade - 1077)`. Below a power of two the numbers are twice as dense. -/
structure Interval where
  low : Nat
  middle : Nat
  high : Nat
  closed : Bool

def interval (x : Binary64) : Interval where
  low := 4 * x.significand - (if x.significand = 2 ^ 52 ∧ 1 < x.binade then 1 else 2)
  middle := 4 * x.significand
  high := 4 * x.significand + 2
  closed := x.significand % 2 = 0

/-- The unit of `interval` divided by `10 ^ grid`, as a fraction. -/
def gridRatio (x : Binary64) (grid : Int) : Nat × Nat :=
  (2 ^ (x.binade - 1077) * 10 ^ (-grid).toNat, 2 ^ (1077 - x.binade) * 10 ^ grid.toNat)

def Interval.contains (i : Interval) (num den point : Nat) : Bool :=
  if i.closed then i.low * num ≤ point * den && point * den ≤ i.high * num
  else i.low * num < point * den && point * den < i.high * num

/-- The grid point in the rounding interval, if there is one. -/
def onGrid? (tie : Tie) (x : Binary64) (grid : Int) : Option Nat :=
  let i := x.interval
  let (num, den) := x.gridRatio grid
  let down := i.middle * num / den
  match i.contains num den down, i.contains num den (down + 1) with
  | false, false => none
  | true, false => some down
  | false, true => some (down + 1)
  | true, true =>
    let twice := 2 * (i.middle * num % den)
    if twice < den then some down
    else if den < twice then some (down + 1)
    else match tie with
      | .up => some (down + 1)
      | .even => some (down + down % 2)

/-- The first hit among `steps` grids from `grid` down. -/
def shortestFrom (tie : Tie) (x : Binary64) (grid : Int) : Nat → Option Decimal
  | 0 => none
  | steps + 1 =>
    match x.onGrid? tie grid with
    | some digits => some ⟨digits, grid⟩
    | none => shortestFrom tie x (grid - 1) steps

/-- No finite number lies in a grid coarser than `10 ^ 308`, and the finest grid needed is
`10 ^ -324`. -/
def shortest (tie : Tie) (x : Binary64) : Decimal :=
  (shortestFrom tie x 308 633).getD ⟨0, 0⟩

end Binary64

end CacheBench
