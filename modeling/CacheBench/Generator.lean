import CacheBench.Program

/-!
# Random number generator

A generator is the four-word state of xoshiro256++. It is seeded from one word, expanded by a
permuted linear congruential generator, so that nearby seeds give unrelated states. Draws from an
interval are exactly uniform: a word outside the largest multiple of the interval's width is
thrown away and drawn again.
-/

namespace CacheBench

structure Generator where
  s0 : UInt64
  s1 : UInt64
  s2 : UInt64
  s3 : UInt64
deriving DecidableEq

namespace Generator

def rotateLeft (x : UInt64) (n : UInt64) : UInt64 := (x <<< n) ||| (x >>> (64 - n))

/-! ## Seeding -/

def advanceSeed (state : UInt64) : UInt64 := state * 6364136223846793005 + 11634580027462260723

def seedOutput (state : UInt64) : UInt32 :=
  let x := (((state >>> 18) ^^^ state) >>> 27).toUInt32
  let r := (state >>> 59).toUInt32
  (x >>> r) ||| (x <<< ((32 - r) % 32))

def seedState (seed : UInt64) : Nat → UInt64
  | 0 => seed
  | n + 1 => advanceSeed (seedState seed n)

/-- Two successive outputs, the earlier one in the low half. -/
def seedWord (seed : UInt64) (i : Nat) : UInt64 :=
  (seedOutput (seedState seed (2 * i + 1))).toUInt64 |||
    ((seedOutput (seedState seed (2 * i + 2))).toUInt64 <<< 32)

def seeded (seed : UInt64) : Generator :=
  ⟨seedWord seed 0, seedWord seed 1, seedWord seed 2, seedWord seed 3⟩

def workerSeed (base worker : UInt64) : UInt64 := base ^^^ (worker * 0x9e3779b97f4a7c15)

def forWorker (base worker : UInt64) : Generator := seeded (workerSeed base worker)

/-! ## Drawing -/

def word (g : Generator) : UInt64 × Generator :=
  let result := rotateLeft (g.s0 + g.s3) 23 + g.s0
  let t := g.s1 <<< 17
  let s2 := g.s2 ^^^ g.s0
  let s3 := g.s3 ^^^ g.s1
  let s1 := g.s1 ^^^ s2
  let s0 := g.s0 ^^^ s3
  (result, ⟨s0, s1, s2 ^^^ t, rotateLeft s3 45⟩)

/-- The largest accepted low half of a product with `width`. -/
def zone (width : Nat) : Nat := width * 2 ^ (63 - width.log2) - 1

/-- The high half of the first product with `width` whose low half is in the zone. -/
def scaled (width : Nat) : Nat → Generator → Nat × Generator
  | 0, g => (0, g)
  | fuel + 1, g =>
    let (w, g) := g.word
    let product := w.toNat * width
    if product % 2 ^ 64 ≤ zone width then (product / 2 ^ 64, g) else scaled width fuel g

/-- Draws without repeating a state. -/
def period : Nat := 2 ^ 256

/-- A word in `[low, high)`, or nothing if there is none. -/
def between? (low high : UInt64) (g : Generator) : Option (UInt64 × Generator) :=
  if low < high then
    let (n, g) := scaled (high.toNat - low.toNat) period g
    some (low + .ofNat n, g)
  else none

/-- A multiple of `2 ^ -53` in `[0, 1)`. -/
def unit (g : Generator) : Binary64 × Generator :=
  let (w, g) := g.word
  (.ofRatio false (w.toNat / 2 ^ 11) (2 ^ 53), g)

def coin (g : Generator) : Bool × Generator :=
  let (w, g) := g.word
  (w.toNat < 2 ^ 63, g)

def draw : (d : Draw) → Generator → d.Answer × Generator
  | .between low high, g => (between? low high g).getD (low, g)
  | .unit, g => g.unit
  | .coin, g => g.coin

end Generator

def Service.withGenerator {σ : Type} (service : Service σ) : Environment (σ × Generator) where
  answer r s :=
    let (x, c) := service r s.1
    (x, (c, s.2))
  draw d s :=
    let (x, g) := s.2.draw d
    (x, (s.1, g))

end CacheBench
