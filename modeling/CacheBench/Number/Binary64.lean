/-!
# Binary64 numbers

A `Binary64` is the 64-bit interchange form of IEEE 754: a sign bit, eleven exponent bits and
fifty-two fraction bits, kept as one word. Two orders live on it. `lt` and `le` compare numeric
values, so the two zeros are equal and a NaN is below nothing; `compare` is the total order of the
standard, which keeps every bit pattern apart and is what an ordered index needs.

`ofRatio` rounds an exact nonnegative quotient to the nearest number, a tie going to the even
significand; `ofScaled` does the same for a power of two as denominator. The arithmetic at the end is
exact arithmetic followed by rounding.
-/

-- A power is the one of core in every module, also where a library brings an instance of its own.
attribute [default_instance 20000, instance (2000)] instPowNat

namespace CacheBench

structure Binary64 where
  bits : UInt64
deriving DecidableEq, Inhabited

namespace Binary64

/-- The magnitude of an infinity; larger magnitudes are NaNs, smaller ones are finite. -/
def infinityMagnitude : Nat := 0x7ff0000000000000

def isNegative (x : Binary64) : Bool := 0x8000000000000000 ≤ x.bits

/-- The bits below the sign. Among numbers of one sign they order as the values do. -/
def magnitude (x : Binary64) : Nat := (x.bits % 0x8000000000000000).toNat

def isNaN (x : Binary64) : Bool := infinityMagnitude < x.magnitude

def isInfinite (x : Binary64) : Bool := x.magnitude = infinityMagnitude

def isFinite (x : Binary64) : Bool := x.magnitude < infinityMagnitude

def isZero (x : Binary64) : Bool := x.magnitude = 0

def ofMagnitude (negative : Bool) (m : Nat) : Binary64 :=
  ⟨UInt64.ofNat (if negative then 2 ^ 63 + m else m)⟩

def zero : Binary64 := ofMagnitude false 0

def infinity (negative : Bool) : Binary64 := ofMagnitude negative infinityMagnitude

def nan : Binary64 := ofMagnitude false 0x7ff8000000000000

instance : Neg Binary64 := ⟨fun x => ⟨x.bits ^^^ 0x8000000000000000⟩⟩

/-! ## Exact value of a finite number -/

/-- The exponent field, with subnormal numbers counted in the first binade. -/
def binade (x : Binary64) : Nat := max 1 (x.magnitude / 2 ^ 52)

/-- A finite number is `significand * 2 ^ (binade - 1075)` up to its sign. -/
def significand (x : Binary64) : Nat :=
  if x.magnitude < 2 ^ 52 then x.magnitude else 2 ^ 52 + x.magnitude % 2 ^ 52

def numerator (x : Binary64) : Nat := x.significand * 2 ^ (x.binade - 1075)

def denominator (x : Binary64) : Nat := 2 ^ (1075 - x.binade)

def signedNumerator (x : Binary64) : Int :=
  if x.isNegative then -(x.numerator : Int) else x.numerator

/-! ## Orders -/

/-- Position on the number line, the same for both zeros. -/
def rank (x : Binary64) : Int := if x.isNegative then -(x.magnitude : Int) else x.magnitude

/-- Position in the total order: negative zero is just below zero, NaNs lie outside the
infinities on the side of their sign. -/
def totalRank (x : Binary64) : Int :=
  if x.isNegative then -(x.magnitude : Int) - 1 else x.magnitude

def lt (x y : Binary64) : Bool := !x.isNaN && !y.isNaN && x.rank < y.rank

@[inherit_doc lt]
def le (x y : Binary64) : Bool := !x.isNaN && !y.isNaN && x.rank ≤ y.rank

/-- The bits changed so that words order as positions in the total order do. -/
def totalWord (x : Binary64) : UInt64 :=
  if x.isNegative then ~~~x.bits else x.bits + 0x8000000000000000

instance : Ord Binary64 := ⟨fun x y => compare x.totalWord y.totalWord⟩

theorem toNat_signBit : (0x8000000000000000 : UInt64).toNat = 9223372036854775808 := rfl

theorem totalRank_eq (x : Binary64) : x.totalRank = x.totalWord.toNat - 2 ^ 63 := by
  have h := x.bits.toNat_lt
  simp only [totalRank, totalWord, isNegative, magnitude, decide_eq_true_eq,
    UInt64.le_iff_toNat_le, UInt64.toNat_mod, toNat_signBit]
  split
  · rw [UInt64.toNat_not, show UInt64.size = 2 ^ 64 from rfl]
    omega
  · rw [UInt64.toNat_add, toNat_signBit]
    omega

theorem compare_def (x y : Binary64) : compare x y = compare x.totalRank y.totalRank := by
  change compare x.totalWord y.totalWord = _
  rw [totalRank_eq, totalRank_eq]
  simp only [compare, compareOfLessAndEq, UInt64.lt_iff_toNat_lt, ← UInt64.toNat_inj]
  generalize x.totalWord.toNat = m
  generalize y.totalWord.toNat = n
  have hlt : (m : Int) - 2 ^ 63 < n - 2 ^ 63 ↔ m < n := by omega
  have heq : (m : Int) - 2 ^ 63 = n - 2 ^ 63 ↔ m = n := by omega
  simp only [hlt, heq]

theorem totalRank_injective {x y : Binary64} (h : x.totalRank = y.totalRank) : x = y := by
  have hx := x.bits.toNat_lt
  have hy := y.bits.toNat_lt
  have hn : x.bits.toNat = y.bits.toNat := by
    simp only [totalRank, isNegative, magnitude, decide_eq_true_eq, UInt64.le_iff_toNat_le,
      UInt64.toNat_mod, toNat_signBit] at h
    split at h <;> split at h <;> omega
  cases x
  cases y
  exact congrArg Binary64.mk (UInt64.toNat_inj.1 hn)

instance : Std.TransOrd Binary64 where
  eq_swap := by
    intro a b
    rw [compare_def, compare_def]
    exact Std.OrientedCmp.eq_swap
  isLE_trans := by
    intro a b c
    simp only [compare_def]
    exact Std.TransCmp.isLE_trans

instance : Std.LawfulEqOrd Binary64 where
  compare_self := by
    intro a
    rw [compare_def]
    exact Std.ReflCmp.compare_self
  eq_of_compare := by
    intro a b h
    rw [compare_def] at h
    exact totalRank_injective (Std.LawfulEqCmp.eq_of_compare h)

/-! ## Rounding -/

/-- The quotient to the nearest natural number, a tie to the even one. -/
def roundDiv (num den : Nat) : Nat :=
  let q := num / den
  let twice := 2 * (num % den)
  if twice < den then q
  else if den < twice then q + 1
  else q + q % 2

/-- Magnitude of the number nearest to `num / den`. The quotient is measured in units of
`2 ^ (b - 1075)`, for the first binade `b` whose significands reach it; a significand that rounds
up to the next power of two carries into the exponent field, which is the right number. -/
def roundedMagnitude (num den : Nat) : Nat :=
  if num = 0 then 0 else
    let bound := num.log2 + 1076 - den.log2
    -- `2 ^ (bound - 1076) < 2 * num / den` and `num / den < 2 ^ (bound - 1075)`
    let top := if num * 2 ^ (1076 - bound) < den * 2 ^ (bound - 1076) then bound - 1 else bound
    let b := max 1 (top - 53)
    (b - 1) * 2 ^ 52 + roundDiv (num * 2 ^ (1075 - b)) (den * 2 ^ (b - 1075))

def ofRatio (negative : Bool) (num den : Nat) : Binary64 :=
  ofMagnitude negative (min (roundedMagnitude num den) infinityMagnitude)

/-! ## Rounding by shifts

Where the denominator is a power of two, shifts take the place of the division.
-/

/-- The quotient by `2 ^ k` to the nearest natural number, a tie to the even one. -/
def roundShift (n k : Nat) : Nat :=
  let q := n >>> k
  let twice := 2 * (n - q <<< k)
  let unit := 1 <<< k
  if twice < unit then q
  else if unit < twice then q + 1
  else q + q % 2

theorem roundShift_eq (n k : Nat) : roundShift n k = roundDiv n (2 ^ k) := by
  have h : n - n / 2 ^ k * 2 ^ k = n % 2 ^ k := by
    have := Nat.div_add_mod' n (2 ^ k)
    omega
  simp only [roundShift, roundDiv, Nat.shiftRight_eq_div_pow, Nat.shiftLeft_eq, Nat.one_mul, h]

theorem roundDiv_mul_right (num den k : Nat) (hk : 0 < k) :
    roundDiv (num * k) (den * k) = roundDiv num den := by
  simp only [roundDiv, Nat.mul_div_mul_right _ _ hk, Nat.mul_mod_mul_right, ← Nat.mul_assoc,
    Nat.mul_lt_mul_right hk]

theorem roundDiv_one (n : Nat) : roundDiv n 1 = n := by simp [roundDiv, Nat.mod_one]

/-- Magnitude of the number nearest to `n * 2 ^ (e - 2150)`. -/
def scaledMagnitude (n e : Nat) : Nat :=
  if n = 0 then 0 else
    let b := max 1 (n.log2 + e - 1127)
    let s := if b + 1075 ≤ e then n <<< (e - (b + 1075)) else roundShift n (b + 1075 - e)
    (b - 1) * 2 ^ 52 + s

theorem log2_mul_pow {n : Nat} (hn : n ≠ 0) (e : Nat) : (n * 2 ^ e).log2 = n.log2 + e := by
  induction e with
  | zero => simp
  | succ e ih =>
    have hne : n * 2 ^ e ≠ 0 := Nat.mul_ne_zero hn (Nat.ne_of_gt (Nat.two_pow_pos e))
    rw [Nat.pow_succ, ← Nat.mul_assoc, Nat.mul_comm _ 2, Nat.log2_two_mul hne, ih]
    omega

theorem pow_le_mul_pow {n a c : Nat} (hn : n ≠ 0) (h : c ≤ n.log2 + a) : 2 ^ c ≤ n * 2 ^ a :=
  calc 2 ^ c ≤ 2 ^ (n.log2 + a) := Nat.pow_le_pow_right (by omega) h
    _ = 2 ^ n.log2 * 2 ^ a := Nat.pow_add ..
    _ ≤ n * 2 ^ a := Nat.mul_le_mul_right _ (Nat.log2_self_le hn)

/-- Rounding by shifts is rounding. -/
theorem scaledMagnitude_add (n e q d : Nat) (h : q + d = 2150) :
    scaledMagnitude n (e + d) = roundedMagnitude (n * 2 ^ e) (2 ^ q) := by
  by_cases hn : n = 0
  · simp [scaledMagnitude, roundedMagnitude, hn]
  have hnum : n * 2 ^ e ≠ 0 := Nat.mul_ne_zero hn (Nat.ne_of_gt (Nat.two_pow_pos e))
  simp only [scaledMagnitude, roundedMagnitude, hn, hnum, if_false, log2_mul_pow hn,
    Nat.log2_two_pow]
  generalize hbound : n.log2 + e + 1076 - q = bound
  have htop : (if n * 2 ^ e * 2 ^ (1076 - bound) < 2 ^ q * 2 ^ (bound - 1076) then bound - 1
      else bound) = bound := by
    split
    · rename_i hlt
      by_cases h0 : bound = 0
      · omega
      · rw [Nat.mul_assoc, ← Nat.pow_add, ← Nat.pow_add] at hlt
        exact absurd (pow_le_mul_pow hn (by omega)) (Nat.not_le.2 hlt)
    · rfl
  rw [htop, show bound - 53 = n.log2 + (e + d) - 1127 by omega]
  generalize max 1 (n.log2 + (e + d) - 1127) = b
  refine congrArg ((b - 1) * 2 ^ 52 + ·) ?_
  split
  · have := roundDiv_mul_right (n * 2 ^ (e + d - (b + 1075))) 1 _
      (Nat.two_pow_pos (q + (b - 1075)))
    rw [roundDiv_one, Nat.one_mul, Nat.mul_assoc, ← Nat.pow_add,
      show e + d - (b + 1075) + (q + (b - 1075)) = e + (1075 - b) by omega] at this
    rw [← Nat.pow_add, Nat.mul_assoc, ← Nat.pow_add, Nat.shiftLeft_eq, this]
  · have := roundDiv_mul_right n (2 ^ (b + 1075 - (e + d))) _ (Nat.two_pow_pos (e + (1075 - b)))
    rw [← Nat.pow_add,
      show b + 1075 - (e + d) + (e + (1075 - b)) = q + (b - 1075) by omega] at this
    rw [← Nat.pow_add, Nat.mul_assoc, ← Nat.pow_add, roundShift_eq, this]

/-- The number nearest to `n * 2 ^ (e - 2150)`. -/
def ofScaled (negative : Bool) (n e : Nat) : Binary64 :=
  ofMagnitude negative (min (scaledMagnitude n e) infinityMagnitude)

theorem ofScaled_add (negative : Bool) (n e q d : Nat) (h : q + d = 2150) :
    ofScaled negative n (e + d) = ofRatio negative (n * 2 ^ e) (2 ^ q) := by
  rw [ofScaled, ofRatio, scaledMagnitude_add n e q d h]

def ofNat (n : Nat) : Binary64 := ofScaled false n 2150

theorem ofNat_eq_ofRatio (n : Nat) : ofNat n = ofRatio false n 1 := by
  have := ofScaled_add false n 0 0 2150 rfl
  rwa [Nat.zero_add, Nat.pow_zero, Nat.mul_one] at this

/-! ## Arithmetic -/

def add (x y : Binary64) : Binary64 :=
  if x.isNaN then x
  else if y.isNaN then y
  else if x.isInfinite then
    if y.isInfinite && x.isNegative != y.isNegative then nan else x
  else if y.isInfinite then y
  else
    let s := x.signedNumerator * y.denominator + y.signedNumerator * x.denominator
    let negative := if s = 0 then x.isNegative && y.isNegative else decide (s < 0)
    ofRatio negative s.natAbs (x.denominator * y.denominator)

def mul (x y : Binary64) : Binary64 :=
  let negative := x.isNegative != y.isNegative
  if x.isNaN then x
  else if y.isNaN then y
  else if x.isInfinite || y.isInfinite then
    if x.isZero || y.isZero then nan else infinity negative
  else ofScaled negative (x.significand * y.significand) (x.binade + y.binade)

def div (x y : Binary64) : Binary64 :=
  let negative := x.isNegative != y.isNegative
  if x.isNaN then x
  else if y.isNaN then y
  else if x.isInfinite then if y.isInfinite then nan else infinity negative
  else if y.isInfinite then ofMagnitude negative 0
  else if y.isZero then if x.isZero then nan else infinity negative
  else ofRatio negative (x.numerator * y.denominator) (x.denominator * y.numerator)

instance : Add Binary64 := ⟨add⟩
instance : Mul Binary64 := ⟨mul⟩
instance : Div Binary64 := ⟨div⟩

end Binary64

end CacheBench
