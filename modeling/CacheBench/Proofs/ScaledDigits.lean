import CacheBench.Proofs.NumberTexts

/-!
# Scaled digits

The reader converts the digits it gathered and multiplies or divides them by a power of ten. Where
neither conversion rounds, only the last step does, and a decimal that is nearest to a number is
read as this number. In general there are more roundings, but the product is finite for the digits
of every finite number all the same, so every finite number is read as a finite number.
-/

namespace CacheBench

namespace Binary64

/-! ## Exact conversions -/

theorem one_pos : 0 < one := by
  have h {k : Nat} (hk : one = 2 ^ k) : 0 < one := hk ▸ Nat.two_pow_pos k
  exact h one_eq

/-- A whole multiple of the gap in its binade is not rounded. -/
theorem ofRatio_exact {num den p s : Nat} (hden : 0 < den) (hp : InBinade (num * one) den p)
    (hs : num * one = s * (den * 2 ^ p)) (hlast : p ≤ 2045) (negative : Bool) :
    (ofRatio negative num den).isFinite ∧
      (ofRatio negative num den).numerator * den =
        num * (ofRatio negative num den).denominator := by
  have hgap : 0 < den * 2 ^ p := Nat.mul_pos hden (Nat.two_pow_pos p)
  have hround : roundDiv (num * one) (den * 2 ^ p) = s := by
    rw [hs]
    exact roundDiv_eq hgap (by omega) (by omega) (by omega)
  have hhigh : s < 2 ^ 53 := by
    have hlt := hp.1
    rw [hs, Nat.pow_add, ← Nat.mul_assoc den, Nat.mul_comm s] at hlt
    exact Nat.lt_of_mul_lt_mul_left hlt
  have hlow : p = 0 ∨ 2 ^ 52 ≤ s := by
    refine hp.2.imp_right fun hle => ?_
    rw [hs, Nat.pow_add, ← Nat.mul_assoc den, Nat.mul_comm s] at hle
    exact Nat.le_of_mul_le_mul_left hle hgap
  have hmagnitude : (ofRatio negative num den).magnitude = p * 2 ^ 52 + s := by
    rw [magnitude_ofRatio, roundedMagnitude_eq hden hp, hround, infinityMagnitude]
    omega
  generalize ofRatio negative num den = y at *
  have hfinite : y.isFinite := by
    rw [isFinite_iff, hmagnitude, infinityMagnitude]
    omega
  have hparts : y.significand = s ∧ y.binade - 1 = p := by
    have hnormal := y.binade_eq_one_or
    have heq := y.magnitude_eq
    have hlt := y.significand_lt
    have hpos := y.one_le_binade
    omega
  have hunits : y.units * den = num * one := by
    rw [hs, units, hparts.1, hparts.2, Nat.mul_assoc, Nat.mul_comm (2 ^ p)]
  refine ⟨hfinite, Nat.mul_right_cancel one_pos ?_⟩
  calc y.numerator * den * one = y.numerator * one * den := Nat.mul_right_comm ..
    _ = y.units * den * y.denominator := by rw [← units_mul_denominator, Nat.mul_right_comm]
    _ = num * y.denominator * one := by rw [hunits, Nat.mul_right_comm]

structure Whole (x : Binary64) (n : Nat) : Prop where
  isFinite : x.isFinite
  sign : x.isNegative = false
  numerator : x.numerator = n * x.denominator

theorem isNegative_ofMagnitude {m : Nat} (h : m < 2 ^ 63) :
    (ofMagnitude false m).isNegative = false := by
  have hsign : (0x8000000000000000 : UInt64).toNat = 2 ^ 63 := rfl
  rw [isNegative, ofMagnitude, decide_eq_false_iff_not, UInt64.le_iff_toNat_le, hsign,
    if_neg Bool.false_ne_true, UInt64.toNat_ofNat']
  omega

theorem isNegative_ofNat (n : Nat) : (ofNat n).isNegative = false :=
  isNegative_ofMagnitude (Nat.lt_of_le_of_lt (Nat.min_le_right ..) (by decide))

theorem whole_ofNat {n : Nat} (h : n < 2 ^ 53) : (ofNat n).Whole n := by
  obtain ⟨p, hp⟩ := exists_inBinade (n * one) Nat.one_pos
  have hexact {k : Nat} (hk : one = 2 ^ k) (hle : k ≤ 2045) :
      p ≤ 2045 ∧ ∃ s, n * one = s * (1 * 2 ^ p) := by
    rw [hk] at hp ⊢
    have hp' : p ≤ k := by
      have hhigh : n * 2 ^ k < 1 * 2 ^ (53 + k) := by
        rw [Nat.pow_add, Nat.one_mul]
        exact Nat.mul_lt_mul_of_pos_right h (Nat.two_pow_pos k)
      rcases hp.2 with hzero | hlow
      · omega
      · have hlt := lt_of_mul_pow_le hlow hhigh
        omega
    refine ⟨by omega, n * 2 ^ (k - p), ?_⟩
    rw [Nat.one_mul, Nat.mul_assoc, ← Nat.pow_add, Nat.sub_add_cancel hp']
  obtain ⟨hlast, s, hs⟩ := hexact one_eq (by decide)
  obtain ⟨hfinite, hratio⟩ := ofRatio_exact Nat.one_pos hp hs hlast false
  rw [← ofNat_eq_ofRatio] at hfinite hratio
  rw [Nat.mul_one] at hratio
  exact ⟨hfinite, isNegative_ofNat n, hratio⟩

theorem whole_power {e : Nat} (h : e ≤ 22) : (ofNat (10 ^ e)).Whole (10 ^ e) := by
  have hpowers : ∀ e ≤ 22, (ofNat (10 ^ e)).isFinite ∧
      (ofNat (10 ^ e)).numerator = 10 ^ e * (ofNat (10 ^ e)).denominator := by decide +kernel
  obtain ⟨hfinite, hnumerator⟩ := hpowers e h
  exact ⟨hfinite, isNegative_ofNat _, hnumerator⟩

/-! ## Products and quotients -/

theorem denominator_pos (x : Binary64) : 0 < x.denominator := Nat.two_pow_pos _

/-- A product is the exact product, rounded. -/
theorem mul_eq_ofRatio {x y : Binary64} (hx : x.isFinite) (hy : y.isFinite) :
    x * y = ofRatio (x.isNegative != y.isNegative) (x.numerator * y.numerator)
      (x.denominator * y.denominator) := by
  have hexp : x.binade + y.binade = x.binade - 1075 + (y.binade - 1075) +
      (x.binade + y.binade - (x.binade - 1075 + (y.binade - 1075))) := by omega
  have hnum : x.numerator * y.numerator =
      x.significand * y.significand * 2 ^ (x.binade - 1075 + (y.binade - 1075)) := by
    rw [numerator, numerator, Nat.pow_add]
    exact Nat.mul_mul_mul_comm ..
  have hden : x.denominator * y.denominator = 2 ^ (1075 - x.binade + (1075 - y.binade)) :=
    (Nat.pow_add ..).symm
  rw [mul_eq_ofScaled hx hy, hnum, hden, hexp]
  exact ofScaled_add _ _ _ _ _ (by omega)

theorem roundedMagnitude_congr {num den num' den' : Nat} (hden : 0 < den) (hden' : 0 < den')
    (h : num * den' = num' * den) : roundedMagnitude num den = roundedMagnitude num' den' :=
  Nat.le_antisymm (roundedMagnitude_mono hden hden' (Nat.le_of_eq h))
    (roundedMagnitude_mono hden' hden (Nat.le_of_eq h.symm))

theorem ofRatio_congr {num den num' den' : Nat} (hden : 0 < den) (hden' : 0 < den')
    (h : num * den' = num' * den) (negative : Bool) :
    ofRatio negative num den = ofRatio negative num' den' := by
  rw [ofRatio, ofRatio, roundedMagnitude_congr hden hden' h]

section

variable {x y : Binary64} {m n : Nat}

theorem Whole.mul (hx : x.Whole m) (hy : y.Whole n) : x * y = ofRatio false (m * n) 1 := by
  rw [mul_eq_ofRatio hx.isFinite hy.isFinite, hx.sign, hy.sign]
  refine ofRatio_congr (Nat.mul_pos x.denominator_pos y.denominator_pos) Nat.one_pos ?_ false
  rw [Nat.mul_one, hx.numerator, hy.numerator]
  exact Nat.mul_mul_mul_comm ..

theorem Whole.div (hx : x.Whole m) (hy : y.Whole n) (hn : 0 < n) : x / y = ofRatio false m n := by
  have hpos : 0 < y.numerator := by
    rw [hy.numerator]
    exact Nat.mul_pos hn y.denominator_pos
  have hzero : y.isZero = false := significand_pos_iff.1 (Nat.pos_of_mul_pos_right hpos)
  rw [div_eq_ofRatio hx.isFinite hy.isFinite hzero, hx.sign, hy.sign]
  refine ofRatio_congr (Nat.mul_pos x.denominator_pos hpos) hn ?_ false
  rw [hx.numerator, hy.numerator]
  ac_rfl

end

end Binary64

/-! ## Exact digits -/

namespace Json.Gathered

open Binary64

def numerator (g : Gathered) : Nat := g.significand * 10 ^ g.exponent.toNat

def denominator (g : Gathered) : Nat := 10 ^ (-g.exponent).toNat

theorem denominator_pos (g : Gathered) : 0 < g.denominator := Nat.pow_pos (by decide)

/-- Neither the digits nor the power of ten are rounded. -/
def Exact (g : Gathered) : Prop := g.significand < 2 ^ 53 ∧ g.exponent.natAbs ≤ 22

instance (g : Gathered) : Decidable g.Exact := inferInstanceAs (Decidable (_ ∧ _))

/-- If neither is rounded, the digits are read as the number that is nearest to them. -/
theorem Exact.scale?_eq {g : Gathered} (h : g.Exact) :
    g.scale? = some (ofRatio false g.numerator g.denominator) := by
  obtain ⟨hsig, hexp⟩ := h
  have hdigits := whole_ofNat hsig
  rw [scale?]
  dsimp only
  by_cases hnonneg : 0 ≤ g.exponent
  · have hpower := whole_power (e := g.exponent.toNat) (by omega)
    have hden : g.denominator = 1 := by
      rw [denominator, show (-g.exponent).toNat = 0 by omega, Nat.pow_zero]
    have hbound : g.numerator ≤ 1 * 2 ^ 127 := by
      calc g.numerator ≤ 2 ^ 53 * 10 ^ 22 :=
            Nat.mul_le_mul (Nat.le_of_lt hsig) (Nat.pow_le_pow_right (by decide) (by omega))
        _ ≤ 1 * 2 ^ 127 := by decide
    have hfinite := (within_ofRatio false Nat.one_pos hbound).isFinite (by decide)
    rw [hdigits.mul hpower, hden, if_pos hnonneg, if_pos (by omega)]
    exact if_neg (Bool.eq_false_iff.1 (isInfinite_of_isFinite hfinite))
  · have hsteps : ((-g.exponent).toNat - 1) / 308 = 0 := by omega
    have hpower := whole_power (e := (-g.exponent).toNat) (by omega)
    have hnum : g.numerator = g.significand := by
      rw [numerator, show g.exponent.toNat = 0 by omega, Nat.pow_zero, Nat.mul_one]
    rw [if_neg hnonneg, hsteps, lower, Nat.mul_zero, Nat.sub_zero,
      hdigits.div hpower (Nat.pow_pos (by decide)), hnum]
    rfl

end Json.Gathered

namespace Binary64

variable {x y : Binary64}

theorem isNegative_eq_testBit (x : Binary64) : x.isNegative = x.bits.toNat.testBit 63 := by
  have hsign : (0x8000000000000000 : UInt64).toNat = 2 ^ 63 := rfl
  have hlt := x.bits.toNat_lt
  rw [isNegative, Nat.testBit_eq_decide_div_mod_eq, decide_eq_decide, UInt64.le_iff_toNat_le, hsign]
  omega

theorem isNegative_neg (x : Binary64) : (-x).isNegative = !x.isNegative := by
  rw [isNegative_eq_testBit, isNegative_eq_testBit]
  change (x.bits ^^^ 0x8000000000000000).toNat.testBit 63 = _
  rw [UInt64.toNat_xor, Nat.testBit_xor]
  exact Bool.xor_true _

theorem eq_of_magnitude (hsign : y.isNegative = false) (h : y.magnitude = x.magnitude) :
    (if x.isNegative then -y else y) = x := by
  apply totalRank_injective
  split <;> simp [totalRank, isNegative_neg, magnitude_neg, *]

/-- The digits that are written for a number make the same quotient when they are gathered. -/
theorem quotient_gathered (d : Decimal) :
    d.gathered.numerator * d.denominator = d.numerator * d.gathered.denominator := by
  unfold Decimal.gathered
  split
  · rename_i h
    have hden : (-d.exponent).toNat = 0 := by omega
    simp only [Json.Gathered.numerator, Json.Gathered.denominator, Decimal.numerator,
      Decimal.denominator, hden, Int.neg_neg, Nat.pow_succ]
    simp [Nat.mul_assoc]
  · rfl

theorem readsBack_of_isZero (h : x.isZero) : x.ReadsBack := by
  have hzero : zero.magnitude = x.magnitude := (of_decide_eq_true h).symm
  rw [← eq_of_magnitude rfl hzero]
  split <;> decide +kernel

/-- Nothing is rounded before the last step. -/
def ExactDigits (x : Binary64) : Prop := x.isZero ∨ (x.shortest .even).gathered.Exact

instance (x : Binary64) : Decidable x.ExactDigits := inferInstanceAs (Decidable (_ ∨ _))

/-- A number whose digits are not rounded comes back. -/
theorem ExactDigits.readsBack (h : x.ExactDigits) (hfinite : x.isFinite) : x.ReadsBack := by
  by_cases hzero : x.isZero
  · exact readsBack_of_isZero hzero
  have hexact := h.resolve_left hzero
  have hs : 0 < x.significand := significand_pos_iff.2 (Bool.eq_false_iff.2 hzero)
  have hround : roundedMagnitude (x.shortest .even).gathered.numerator
      (x.shortest .even).gathered.denominator = x.magnitude := by
    rw [roundedMagnitude_congr (Json.Gathered.denominator_pos _) (Decimal.denominator_pos _)
      (quotient_gathered _)]
    exact (nearest_shortest hs .even).roundedMagnitude_eq (Decimal.denominator_pos _)
  have hlt := isFinite_iff.1 hfinite
  have hmagnitude : (ofRatio false (x.shortest .even).gathered.numerator
      (x.shortest .even).gathered.denominator).magnitude = x.magnitude := by
    rw [magnitude_ofRatio, hround, Nat.min_eq_left (Nat.le_of_lt hlt)]
  rw [ReadsBack, reread?_eq hfinite hs, hexact.scale?_eq, Option.map_some]
  refine congrArg some (eq_of_magnitude (isNegative_ofMagnitude ?_) hmagnitude)
  exact Nat.lt_of_le_of_lt (Nat.min_le_right ..) (by decide)

/-! ## Every finite number is read as a finite number -/

theorem units_le (h : x.magnitude ≤ y.magnitude) : x.units ≤ y.units := by
  have hx := x.magnitude_eq
  have hy := y.magnitude_eq
  have hs := x.significand_lt
  have hb := x.one_le_binade
  have hbinade : x.binade ≤ y.binade := by
    have hdiv := Nat.div_le_div_right (c := 2 ^ 52) h
    unfold binade
    omega
  rw [units, units]
  rcases Nat.lt_or_eq_of_le hbinade with hlt | heq
  · have hnormal := y.binade_eq_one_or.resolve_left (by omega)
    calc x.significand * 2 ^ (x.binade - 1)
        ≤ 2 ^ 53 * 2 ^ (x.binade - 1) := Nat.mul_le_mul_right _ (Nat.le_of_lt hs)
      _ = 2 ^ (53 + (x.binade - 1)) := (Nat.pow_add ..).symm
      _ ≤ 2 ^ (52 + (y.binade - 1)) := Nat.pow_le_pow_right (by decide) (by omega)
      _ = 2 ^ 52 * 2 ^ (y.binade - 1) := Nat.pow_add ..
      _ ≤ y.significand * 2 ^ (y.binade - 1) := Nat.mul_le_mul_right _ hnormal
  · rw [heq] at hx ⊢
    exact Nat.mul_le_mul_right _ (by omega)

theorem quotient_le (h : x.magnitude ≤ y.magnitude) :
    x.numerator * y.denominator ≤ y.numerator * x.denominator := by
  refine Nat.le_of_mul_le_mul_right ?_ one_pos
  calc x.numerator * y.denominator * one
      = x.units * x.denominator * y.denominator := by
        rw [units_mul_denominator, Nat.mul_right_comm]
    _ ≤ y.units * x.denominator * y.denominator :=
        Nat.mul_le_mul_right _ (Nat.mul_le_mul_right _ (units_le h))
    _ = y.numerator * x.denominator * one := by
        rw [Nat.mul_right_comm, units_mul_denominator, Nat.mul_right_comm]

theorem magnitude_ofNat_le {m n : Nat} (h : m ≤ n) :
    (ofNat m).magnitude ≤ (ofNat n).magnitude := by
  rw [ofNat_eq_ofRatio, ofNat_eq_ofRatio, magnitude_ofRatio, magnitude_ofRatio]
  have hle := roundedMagnitude_mono Nat.one_pos Nat.one_pos (Nat.mul_le_mul_right 1 h)
  omega

theorem magnitude_mul_le {z : Binary64} (hx : x.isFinite) (hy : y.isFinite) (hz : z.isFinite)
    (h : x.magnitude ≤ y.magnitude) : (x * z).magnitude ≤ (y * z).magnitude := by
  have hquotient : x.numerator * z.numerator * (y.denominator * z.denominator) ≤
      y.numerator * z.numerator * (x.denominator * z.denominator) := by
    rw [Nat.mul_mul_mul_comm, Nat.mul_mul_mul_comm y.numerator]
    exact Nat.mul_le_mul_right _ (quotient_le h)
  have hle := roundedMagnitude_mono (Nat.mul_pos x.denominator_pos z.denominator_pos)
    (Nat.mul_pos y.denominator_pos z.denominator_pos) hquotient
  rw [mul_eq_ofRatio hx hz, mul_eq_ofRatio hy hz, magnitude_ofRatio, magnitude_ofRatio]
  omega

/-- The most digits over a power of ten that a number has that is not the largest one. -/
def mostDigits (e : Nat) : Nat := min (2 ^ 57) ((2 ^ 54 - 3) * 2 ^ 970 / 10 ^ e)

theorem isFinite_mostDigits : ∀ e ≤ 308, (ofNat (mostDigits e)).isFinite ∧
    (ofNat (mostDigits e) * ofNat (10 ^ e)).isFinite := by decide +kernel

theorem halfway_le {s p q : Nat} (hs : s < 2 ^ 53) (h : p < q ∨ p = q ∧ s ≤ 2 ^ 53 - 2) :
    2 * (s * 2 ^ p) + 2 ^ p ≤ (2 ^ 54 - 3) * 2 ^ q := by
  have hfactor : 2 * (s * 2 ^ p) + 2 ^ p = (2 * s + 1) * 2 ^ p := by
    rw [Nat.add_mul, Nat.one_mul, Nat.mul_assoc]
  rw [hfactor]
  rcases h with hlt | ⟨rfl, hs⟩
  · calc (2 * s + 1) * 2 ^ p ≤ (2 ^ 54 - 3) * 2 * 2 ^ p := Nat.mul_le_mul_right _ (by omega)
      _ = (2 ^ 54 - 3) * 2 ^ (p + 1) := by rw [Nat.mul_assoc, ← Nat.pow_succ']
      _ ≤ (2 ^ 54 - 3) * 2 ^ q := Nat.mul_le_mul_left _ (Nat.pow_le_pow_right (by decide) hlt)
  · exact Nat.mul_le_mul_right _ (by omega)

theorem digits_le_mostDigits (hs : 0 < x.significand) (h : x.magnitude < infinityMagnitude - 1)
    (hexp : 0 ≤ (x.shortest .even).exponent) :
    (x.shortest .even).digits ≤ mostDigits (x.shortest .even).exponent.toNat := by
  have hfinite : x.isFinite := isFinite_iff.2 (by omega)
  have hdigits := digits_lt hs hfinite .even
  have hhigh := (nearest_shortest hs .even).high
  have hplace : x.binade - 1 < 2045 ∨ x.binade - 1 = 2045 ∧ x.significand ≤ 2 ^ 53 - 2 := by
    have hmagnitude := x.magnitude_eq
    have hnormal := x.binade_eq_one_or
    unfold infinityMagnitude at h
    omega
  have hhalfway := halfway_le x.significand_lt hplace
  generalize x.shortest .even = d at *
  have hden : (-d.exponent).toNat = 0 := by omega
  rw [gap, Decimal.denominator, hden, Nat.pow_zero, Nat.one_mul] at hhigh
  have hpower (k l q : Nat) (hone : one = 2 ^ k) (hq : q = l + k + 1)
      (hle : 2 * (d.numerator * one) ≤ (2 ^ 54 - 3) * 2 ^ q) :
      d.numerator ≤ (2 ^ 54 - 3) * 2 ^ l := by
    refine Nat.le_of_mul_le_mul_right ?_ (Nat.two_pow_pos (k + 1))
    rwa [Nat.mul_assoc _ (2 ^ l), ← Nat.pow_add, ← Nat.add_assoc, ← hq, Nat.pow_succ, ← hone,
      ← Nat.mul_assoc, Nat.mul_comm _ 2]
  have hnum := hpower 1074 970 2045 one_eq rfl (Nat.le_trans hhigh hhalfway)
  rw [Decimal.numerator, ← Nat.le_div_iff_mul_le (Nat.pow_pos (by decide))] at hnum
  exact Nat.le_min.2 ⟨Nat.le_of_lt hdigits, hnum⟩

theorem shortest_congr (h : x.magnitude = y.magnitude) (tie : Tie) :
    x.shortest tie = y.shortest tie := by
  have hsignificand : x.significand = y.significand := by rw [significand, significand, h]
  have hbinade : x.binade = y.binade := by rw [binade, binade, h]
  have hgrid (grid : Int) : x.onGrid? tie grid = y.onGrid? tie grid := by
    have hinterval : x.interval = y.interval := by
      rw [interval, interval, hsignificand, hbinade]
    have hratio : x.gridRatio grid = y.gridRatio grid := by rw [gridRatio, gridRatio, hbinade]
    rw [onGrid?, onGrid?, hinterval, hratio]
  have hfrom (steps : Nat) (grid : Int) :
      shortestFrom tie x grid steps = shortestFrom tie y grid steps := by
    induction steps generalizing grid with
    | zero => rfl
    | succ steps ih => rw [shortestFrom, shortestFrom, hgrid, ih]
  rw [shortest, shortest, hfrom]

theorem shortest_largest : (ofMagnitude false (infinityMagnitude - 1)).shortest .even =
    ⟨17976931348623157, 292⟩ := by decide +kernel

/-- The scaled digits of a finite number are finite. -/
theorem isFinite_scaled (hfinite : x.isFinite) (hs : 0 < x.significand)
    (hexp : 0 ≤ (x.shortest .even).exponent) :
    (ofNat (x.shortest .even).digits *
      ofNat (10 ^ (x.shortest .even).exponent.toNat)).isFinite := by
  obtain ⟨-, hcoarsest, -, -⟩ := shortest_eq_some hs .even
  rcases Nat.lt_or_ge x.magnitude (infinityMagnitude - 1) with hlt | hge
  · have hle := magnitude_ofNat_le (digits_le_mostDigits hs hlt hexp)
    obtain ⟨hmost, hproduct⟩ :=
      isFinite_mostDigits (x.shortest .even).exponent.toNat (by omega)
    obtain ⟨hpower, -⟩ := one_le_powerOfTen (x.shortest .even).exponent.toNat (by omega)
    rw [isFinite_iff] at hproduct ⊢
    have hdigits := isFinite_iff.2 (Nat.lt_of_le_of_lt hle (isFinite_iff.1 hmost))
    exact Nat.lt_of_le_of_lt (magnitude_mul_le hdigits hmost hpower hle) hproduct
  · -- `mostDigits` does not bound the digits of the largest number, and with the bound that does
    -- there is an exponent, 292, where the product is infinite
    have hlargest : x.magnitude = (ofMagnitude false (infinityMagnitude - 1)).magnitude := by
      have hlt := isFinite_iff.1 hfinite
      rw [magnitude_ofMagnitude false (by decide)]
      omega
    rw [shortest_congr hlargest .even, shortest_largest]
    decide +kernel

/-- The text of a finite number is read as a finite number. -/
theorem exists_reread (hfinite : x.isFinite) : ∃ y, x.reread? = some y ∧ y.isFinite := by
  suffices hread : ∃ y, x.reread? = some y by
    obtain ⟨y, hy⟩ := hread
    exact ⟨y, hy, isFinite_of_reread? hy⟩
  cases hzero : x.isZero with
  | true => exact ⟨x, readsBack_of_isZero hzero⟩
  | false =>
      have hs := significand_pos_iff.2 hzero
      have hproduct := isFinite_scaled hfinite hs
      have hcoarsest := (shortest_eq_some hs .even).2.1
      rw [reread?_eq hfinite hs]
      generalize x.shortest .even = d at *
      have hscale : ∃ y, d.gathered.scale? = some y := by
        unfold Decimal.gathered
        split
        · exact ⟨_, rfl⟩
        · rw [Json.Gathered.scale?]
          dsimp only
          split_ifs with hexp hover
          · rw [isInfinite_of_isFinite (hproduct hexp)] at hover
            cases hover
          · exact ⟨_, rfl⟩
          · exact ⟨_, rfl⟩
      obtain ⟨y, hy⟩ := hscale
      exact ⟨_, by rw [hy, Option.map_some]⟩

end Binary64

end CacheBench
