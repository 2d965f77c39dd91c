import CacheBench.Json.Number
import Mathlib.Tactic.Common

/-!
# Numbers that are read are finite

A significand of 64 bits is far from the infinities, and dividing it by powers of ten keeps it
there: `Within` bounds a magnitude by a power of two, and a division by a number that is large
enough makes up for what rounding adds. A product that would be infinite is refused. So every
number that a literal is read as is finite.
-/

namespace CacheBench

namespace Binary64

/-! ## Bounds on rounding -/

theorem roundDiv_le {num den n : Nat} (hden : 0 < den) (h : num ≤ n * den) :
    roundDiv num den ≤ n := by
  have hdiv := Nat.div_add_mod' num den
  have hmod := Nat.mod_lt num hden
  have hq : num / den ≤ n := Nat.div_le_of_le_mul (by rwa [Nat.mul_comm] at h)
  -- A quotient that is rounded up was not exact.
  have hup : num % den ≠ 0 → num / den + 1 ≤ n := by
    intro hne
    rcases Nat.lt_or_eq_of_le hq with hlt | heq
    · exact hlt
    · rw [heq] at hdiv
      omega
  unfold roundDiv
  dsimp only
  split_ifs with hlow hhigh <;> omega

theorem log2_le_log2_add {num den k : Nat} (hnum : num ≠ 0) (h : num ≤ den * 2 ^ k) :
    num.log2 ≤ den.log2 + k := by
  have hden : den ≠ 0 := by
    rintro rfl
    omega
  have hne : den * 2 ^ k ≠ 0 := Nat.mul_ne_zero hden (Nat.ne_of_gt (Nat.two_pow_pos k))
  rw [← log2_mul_pow hden, Nat.le_log2 hne]
  exact Nat.le_trans (Nat.log2_self_le hnum) h

/-- A quotient below `2 ^ k` rounds to at most the number `2 ^ (k + 3)`. -/
theorem roundedMagnitude_le {num den k : Nat} (hden : 0 < den) (h : num ≤ den * 2 ^ k) :
    roundedMagnitude num den ≤ (k + 1026) * 2 ^ 52 := by
  by_cases hnum : num = 0
  · simp [roundedMagnitude, hnum]
  have hlog := log2_le_log2_add hnum h
  simp only [roundedMagnitude, hnum, if_false]
  generalize hbound : num.log2 + 1076 - den.log2 = bound
  generalize htop : (if num * 2 ^ (1076 - bound) < den * 2 ^ (bound - 1076) then bound - 1
    else bound) = top
  have htop' : bound ≤ top + 1 ∧ top ≤ bound := by
    rw [← htop]
    split_ifs <;> omega
  generalize hb : max 1 (top - 53) = b
  have hsig : roundDiv (num * 2 ^ (1075 - b)) (den * 2 ^ (b - 1075)) ≤ 2 ^ 54 := by
    refine roundDiv_le (Nat.mul_pos hden (Nat.two_pow_pos _)) ?_
    calc num * 2 ^ (1075 - b)
        ≤ 2 ^ (num.log2 + 1) * 2 ^ (1075 - b) :=
          Nat.mul_le_mul_right _ (Nat.le_of_lt Nat.lt_log2_self)
      _ = 2 ^ (num.log2 + 1 + (1075 - b)) := (Nat.pow_add ..).symm
      _ ≤ 2 ^ (54 + (den.log2 + (b - 1075))) := Nat.pow_le_pow_right (by decide) (by omega)
      _ = 2 ^ 54 * (2 ^ den.log2 * 2 ^ (b - 1075)) := by rw [Nat.pow_add, Nat.pow_add]
      _ ≤ 2 ^ 54 * (den * 2 ^ (b - 1075)) :=
          Nat.mul_le_mul_left _ (Nat.mul_le_mul_right _ (Nat.log2_self_le (by omega)))
  have hbinade : b - 1 ≤ k + 1022 := by omega
  generalize b - 1 = c at hbinade
  omega

theorem magnitude_ofMagnitude (negative : Bool) {m : Nat} (h : m < 2 ^ 63) :
    (ofMagnitude negative m).magnitude = m := by
  have hsign : (0x8000000000000000 : UInt64).toNat = 2 ^ 63 := rfl
  rw [magnitude, ofMagnitude, UInt64.toNat_mod, hsign, UInt64.toNat_ofNat']
  cases negative <;> simp <;> omega

theorem magnitude_ofRatio (negative : Bool) (num den : Nat) :
    (ofRatio negative num den).magnitude = min (roundedMagnitude num den) infinityMagnitude :=
  magnitude_ofMagnitude negative (Nat.lt_of_le_of_lt (Nat.min_le_right ..) (by decide))

theorem magnitude_ofScaled (negative : Bool) (n e : Nat) :
    (ofScaled negative n e).magnitude = min (scaledMagnitude n e) infinityMagnitude :=
  magnitude_ofMagnitude negative (Nat.lt_of_le_of_lt (Nat.min_le_right ..) (by decide))

theorem magnitude_neg (x : Binary64) : (-x).magnitude = x.magnitude := by
  have hsign : (0x8000000000000000 : UInt64).toNat = 2 ^ 63 := rfl
  change ((x.bits ^^^ 0x8000000000000000) % 0x8000000000000000).toNat = x.magnitude
  rw [magnitude, UInt64.toNat_mod, UInt64.toNat_mod, UInt64.toNat_xor, hsign,
    Nat.xor_mod_two_pow, Nat.mod_self, Nat.xor_zero]

/-! ## The parts of a number -/

section

variable (x : Binary64)

theorem significand_lt : x.significand < 2 ^ 53 := by
  unfold significand
  split <;> omega

theorem one_le_binade : 1 ≤ x.binade := Nat.le_max_left ..

/-- Only the significands of the first binade may be small. -/
theorem binade_eq_one_or : x.binade = 1 ∨ 2 ^ 52 ≤ x.significand := by
  unfold binade significand
  split <;> omega

theorem magnitude_eq : x.magnitude = (x.binade - 1) * 2 ^ 52 + x.significand := by
  unfold binade significand
  split <;> omega

theorem significand_pos_iff {x : Binary64} : 0 < x.significand ↔ x.isZero = false := by
  have hmagnitude := x.magnitude_eq
  have hnormal := x.binade_eq_one_or
  rw [isZero, decide_eq_false_iff_not]
  constructor
  · intro h hzero
    omega
  · intro h
    by_contra hzero
    have hone : x.binade = 1 := hnormal.resolve_right (by omega)
    rw [hone] at hmagnitude
    omega

end

/-! ## Numbers far from the infinities -/

/-- At most `2 ^ (k + 3)`, whatever the sign. -/
def Within (x : Binary64) (k : Nat) : Prop := x.magnitude ≤ (k + 1026) * 2 ^ 52

theorem isFinite_iff {x : Binary64} : x.isFinite ↔ x.magnitude < infinityMagnitude := by
  simp [isFinite]

theorem binade_le {x : Binary64} (h : x.isFinite) : x.binade ≤ 2046 := by
  rw [isFinite_iff] at h
  unfold binade infinityMagnitude at *
  omega

theorem isInfinite_of_isFinite {x : Binary64} (h : x.isFinite) : x.isInfinite = false :=
  decide_eq_false (Nat.ne_of_lt (isFinite_iff.1 h))

theorem isNaN_of_isFinite {x : Binary64} (h : x.isFinite) : x.isNaN = false :=
  decide_eq_false (Nat.not_lt.2 (Nat.le_of_lt (isFinite_iff.1 h)))

theorem Within.isFinite {x : Binary64} {k : Nat} (h : x.Within k) (hk : k ≤ 1020) : x.isFinite := by
  have hbound : (k + 1026) * 2 ^ 52 ≤ 2046 * 2 ^ 52 := Nat.mul_le_mul_right _ (by omega)
  exact isFinite_iff.2 (Nat.lt_of_le_of_lt (Nat.le_trans h hbound) (by decide))

theorem Within.numerator_le {x : Binary64} {k : Nat} (h : x.Within k) :
    x.numerator ≤ x.denominator * 2 ^ (k + 4) := by
  have hbinade : x.binade ≤ k + 1026 := by
    unfold Within at h
    unfold binade
    omega
  calc x.numerator ≤ 2 ^ 53 * 2 ^ (x.binade - 1075) :=
        Nat.mul_le_mul_right _ (Nat.le_of_lt x.significand_lt)
    _ = 2 ^ (53 + (x.binade - 1075)) := (Nat.pow_add ..).symm
    _ ≤ 2 ^ (1075 - x.binade + (k + 4)) := Nat.pow_le_pow_right (by decide) (by omega)
    _ = x.denominator * 2 ^ (k + 4) := Nat.pow_add ..

theorem within_ofRatio (negative : Bool) {num den k : Nat} (hden : 0 < den)
    (h : num ≤ den * 2 ^ k) : (ofRatio negative num den).Within k := by
  rw [Within, magnitude_ofRatio]
  exact Nat.le_trans (Nat.min_le_left ..) (roundedMagnitude_le hden h)

theorem within_ofNat {n k : Nat} (h : n ≤ 2 ^ k) : (ofNat n).Within k := by
  rw [ofNat_eq_ofRatio]
  exact within_ofRatio false (by decide) (by omega)

theorem div_eq_ofRatio {x y : Binary64} (hx : x.isFinite) (hy : y.isFinite)
    (hzero : y.isZero = false) :
    x / y = ofRatio (x.isNegative != y.isNegative) (x.numerator * y.denominator)
      (x.denominator * y.numerator) := by
  change div x y = _
  simp only [div, isNaN_of_isFinite hx, isNaN_of_isFinite hy, isInfinite_of_isFinite hx,
    isInfinite_of_isFinite hy, hzero, Bool.false_eq_true, if_false]

theorem cross_le {a b c d p q : Nat} (h : a ≤ b * (p * q)) (h' : c * q ≤ d) :
    a * c ≤ b * d * p :=
  calc a * c ≤ b * (p * q) * c := Nat.mul_le_mul_right c h
    _ = b * p * (c * q) := by ac_rfl
    _ ≤ b * p * d := Nat.mul_le_mul_left _ h'
    _ = b * d * p := by ac_rfl

theorem Within.div {x y : Binary64} {j k l : Nat} (hx : x.Within k) (hk : k ≤ 1020)
    (hy : y.isFinite) (hj : y.denominator * 2 ^ j ≤ y.numerator) (hl : k + 4 = l + j) :
    (x / y).Within l := by
  have hnum : 0 < y.numerator :=
    Nat.lt_of_lt_of_le (Nat.mul_pos (Nat.two_pow_pos _) (Nat.two_pow_pos j)) hj
  have hzero := significand_pos_iff.1 (Nat.pos_of_mul_pos_right hnum)
  have hquotient := hx.numerator_le
  rw [hl, Nat.pow_add] at hquotient
  rw [div_eq_ofRatio (hx.isFinite hk) hy hzero]
  exact within_ofRatio _ (Nat.mul_pos (Nat.two_pow_pos _) hnum) (cross_le hquotient hj)

theorem one_le_powerOfTen : ∀ e ≤ 308, (ofNat (10 ^ e)).isFinite ∧
    (ofNat (10 ^ e)).denominator * 2 ^ 0 ≤ (ofNat (10 ^ e)).numerator := by decide +kernel

theorem mul_eq_ofScaled {x y : Binary64} (hx : x.isFinite) (hy : y.isFinite) :
    x * y = ofScaled (x.isNegative != y.isNegative) (x.significand * y.significand)
      (x.binade + y.binade) := by
  change mul x y = _
  simp only [mul, isNaN_of_isFinite hx, isNaN_of_isFinite hy, isInfinite_of_isFinite hx,
    isInfinite_of_isFinite hy, Bool.or_self, Bool.false_eq_true, if_false]

theorem isFinite_mul {x y : Binary64} (hx : x.isFinite) (hy : y.isFinite)
    (h : (x * y).isInfinite = false) : (x * y).isFinite := by
  rw [mul_eq_ofScaled hx hy] at h ⊢
  simp only [isInfinite, isFinite, magnitude_ofScaled, decide_eq_true_eq,
    decide_eq_false_iff_not] at h ⊢
  omega

end Binary64

namespace Json
open Binary64

theorem lower_within (steps : Nat) {f : Binary64} (h : f.Within 64) :
    (lower f steps).Within 64 := by
  induction steps generalizing f with
  | zero => exact h
  | succ n ih =>
      have hlarge : (ofNat (10 ^ 308)).isFinite ∧
          (ofNat (10 ^ 308)).denominator * 2 ^ 4 ≤ (ofNat (10 ^ 308)).numerator := by
        decide +kernel
      unfold lower
      split
      · exact h
      · exact ih (h.div (by decide) hlarge.1 hlarge.2 rfl)

theorem gatherWhole_lt {ds : List Nat} {g : Gathered} (h : g.significand < 2 ^ 64) :
    (gatherWhole g ds).significand < 2 ^ 64 := by
  induction ds generalizing g with
  | nil => exact h
  | cons d ds ih =>
      unfold gatherWhole
      split_ifs with hfits
      · exact ih (of_decide_eq_true hfits)
      · exact h

theorem gatherFraction_lt {ds : List Nat} {g : Gathered} (h : g.significand < 2 ^ 64) :
    (gatherFraction g ds).significand < 2 ^ 64 := by
  induction ds generalizing g with
  | nil => exact h
  | cons d ds ih =>
      unfold gatherFraction
      split_ifs with hfits
      · exact ih (of_decide_eq_true hfits)
      · exact h

theorem scale?_isFinite {g : Gathered} {x : Binary64} (hg : g.significand < 2 ^ 64)
    (h : g.scale? = some x) : x.isFinite := by
  have hf : (ofNat g.significand).Within 64 := within_ofNat (Nat.le_of_lt hg)
  have hfinite := hf.isFinite (by decide)
  simp only [Gathered.scale?] at h
  split_ifs at h with hsign hsmall hover hzero
  · cases h
    exact isFinite_mul hfinite (one_le_powerOfTen _ (by omega)).1 (by simpa using hover)
  · cases h
    exact hfinite
  · cases h
    obtain ⟨hpower, hone⟩ := one_le_powerOfTen
      ((-g.exponent).toNat - 308 * (((-g.exponent).toNat - 1) / 308)) (by omega)
    exact ((lower_within _ hf).div (by decide) hpower hone rfl).isFinite (by decide)

theorem Literal.toBinary64?_isFinite {n : Literal} {x : Binary64} (h : n.toBinary64? = some x) :
    x.isFinite := by
  have hg : n.gathered.significand < 2 ^ 64 := gatherFraction_lt (gatherWhole_lt (by decide))
  obtain ⟨m, hm, rfl⟩ := Option.map_eq_some_iff.1 h
  have hfinite : m.isFinite := by
    simp only [Literal.magnitude?] at hm
    split at hm
    · exact scale?_isFinite hg hm
    · split_ifs at hm
      · cases hm
        decide
      all_goals refine scale?_isFinite ?_ hm; exact hg
  split_ifs
  · rwa [isFinite, magnitude_neg]
  · exact hfinite

end Json
end CacheBench
