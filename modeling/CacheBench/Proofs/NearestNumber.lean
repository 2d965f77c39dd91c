import CacheBench.Number.Shortest
import CacheBench.Proofs.FiniteNumbers
import Mathlib.Data.Nat.Find

/-!
# Rounding to the nearest number

Magnitudes are measured in units of `2 ^ (-1074)`, of which every finite number is a whole multiple.
A quotient lies in one binade, and `roundedMagnitude` rounds it to the grid of that binade. So a
quotient in the rounding interval of a number is rounded to this number, and of two quotients the
greater one is not rounded to the lesser number.
-/

namespace CacheBench

namespace Binary64

/-! ## Units -/

/-- The units of `2 ^ (-1074)` that make one. -/
def one : Nat := 2 ^ 1074

theorem one_eq : one = 2 ^ 1074 := by simp only [one]

attribute [irreducible] one

def units (x : Binary64) : Nat := x.significand * 2 ^ (x.binade - 1)

theorem mul_two_pow_mul (n : Nat) {a b c d : Nat} (h : a + b = c + d) :
    n * 2 ^ a * 2 ^ b = n * 2 ^ c * 2 ^ d := by
  rw [Nat.mul_assoc, Nat.mul_assoc, ← Nat.pow_add, ← Nat.pow_add, h]

theorem units_mul_denominator (x : Binary64) : x.units * x.denominator = x.numerator * one := by
  have hb := x.one_le_binade
  have hexp : x.binade - 1 + (1075 - x.binade) = x.binade - 1075 + 1074 := by omega
  have h := mul_two_pow_mul x.significand hexp
  rwa [← one_eq] at h

/-! ## The nearest multiple -/

theorem roundDiv_eq {num den s : Nat} (hden : 0 < den) (hlow : 2 * (s * den) ≤ 2 * num + den)
    (hhigh : 2 * num ≤ 2 * (s * den) + den)
    (htie : s % 2 = 1 → 2 * (s * den) < 2 * num + den ∧ 2 * num < 2 * (s * den) + den) :
    roundDiv num den = s := by
  have hdiv := Nat.div_add_mod' num den
  have hmod := Nat.mod_lt num hden
  unfold roundDiv
  dsimp only
  generalize num % den = r at *
  generalize num / den = q at *
  subst hdiv
  -- only `q` and `q + 1` are that near
  have hnear : s = q ∨ s = q + 1 := by
    rcases Nat.lt_or_ge s q with hlt | hge
    · have := Nat.mul_le_mul_right den hlt
      rw [Nat.succ_mul] at this
      omega
    · rcases Nat.lt_or_ge (q + 1) s with hlt | hle
      · have := Nat.mul_le_mul_right den hlt
        rw [Nat.succ_mul, Nat.succ_mul] at this
        omega
      · omega
  rcases hnear with rfl | rfl
  · split_ifs <;> omega
  · have hsucc : (q + 1) * den = q * den + den := Nat.succ_mul q den
    split_ifs <;> omega

theorem roundDiv_mono {num num' : Nat} (h : num ≤ num') (den : Nat) :
    roundDiv num den ≤ roundDiv num' den := by
  have hdiv := Nat.div_add_mod' num den
  have hdiv' := Nat.div_add_mod' num' den
  have hle : num / den ≤ num' / den := Nat.div_le_div_right h
  unfold roundDiv
  dsimp only
  rcases Nat.lt_or_eq_of_le hle with hlt | heq
  · split_ifs <;> omega
  · rw [heq] at hdiv ⊢
    split_ifs <;> omega

theorem le_roundDiv {num den n : Nat} (hden : 0 < den) (h : n * den ≤ num) :
    n ≤ roundDiv num den := by
  have hq : n ≤ num / den := (Nat.le_div_iff_mul_le hden).2 h
  unfold roundDiv
  dsimp only
  split_ifs <;> omega

/-! ## Binades -/

/-- The quotient, in units, lies above `p` binades. -/
def InBinade (num den p : Nat) : Prop :=
  num < den * 2 ^ (p + 53) ∧ (p = 0 ∨ den * 2 ^ (p + 52) ≤ num)

theorem exists_inBinade (num : Nat) {den : Nat} (hden : 0 < den) : ∃ p, InBinade num den p := by
  have hsome : ∃ p, num < den * 2 ^ (p + 53) := by
    refine ⟨num, ?_⟩
    calc num < 2 ^ num := Nat.lt_two_pow_self
      _ ≤ 2 ^ (num + 53) := Nat.pow_le_pow_right (by decide) (by omega)
      _ ≤ den * 2 ^ (num + 53) := Nat.le_mul_of_pos_left _ hden
  refine ⟨Nat.find hsome, Nat.find_spec hsome, ?_⟩
  rcases Nat.eq_zero_or_pos (Nat.find hsome) with hzero | hpos
  · exact .inl hzero
  · have hleast := Nat.find_min hsome (Nat.sub_lt hpos Nat.one_pos)
    have hexp : Nat.find hsome - 1 + 53 = Nat.find hsome + 52 := by omega
    rw [Nat.not_lt, hexp] at hleast
    exact .inr hleast

section

variable (m n a b : Nat)

theorem mul_pow_sub_mul : m * 2 ^ (a - b) * 2 ^ min a b = m * 2 ^ a := by
  have h : m * 2 ^ (a - b) * 2 ^ min a b = m * 2 ^ a * 2 ^ 0 := mul_two_pow_mul m (by omega)
  rwa [Nat.pow_zero, Nat.mul_one] at h

theorem mul_pow_sub_mul' : m * 2 ^ (b - a) * 2 ^ min a b = m * 2 ^ b := by
  rw [Nat.min_comm, mul_pow_sub_mul]

theorem mul_pow_sub_lt_iff : m * 2 ^ (a - b) < n * 2 ^ (b - a) ↔ m * 2 ^ a < n * 2 ^ b := by
  rw [← mul_pow_sub_mul m a b, ← mul_pow_sub_mul' n a b, Nat.mul_lt_mul_right (Nat.two_pow_pos _)]

theorem roundDiv_pow_sub :
    roundDiv (m * 2 ^ (a - b)) (n * 2 ^ (b - a)) = roundDiv (m * 2 ^ a) (n * 2 ^ b) := by
  rw [← roundDiv_mul_right _ _ _ (Nat.two_pow_pos (min a b)), mul_pow_sub_mul, mul_pow_sub_mul']

end

theorem lt_of_mul_pow_le {n m a b : Nat} (ha : n * 2 ^ a ≤ m) (hb : m < n * 2 ^ b) : a < b :=
  (Nat.pow_lt_pow_iff_right (by decide)).1
    (Nat.lt_of_mul_lt_mul_left (Nat.lt_of_le_of_lt ha hb))

/-- The bound that `roundedMagnitude` begins with is right up to one, and the comparison after it
finds out which. -/
theorem top_of_bound {num den k t bound : Nat} (hnum : num ≠ 0) (hden : 0 < den)
    (hbound : num.log2 + k - den.log2 = bound) (hhigh : num * 2 ^ k < den * 2 ^ (t + 1))
    (hlow : t = 54 ∨ den * 2 ^ t ≤ num * 2 ^ k) :
    max 54 (if num * 2 ^ (k - bound) < den * 2 ^ (bound - k) then bound - 1 else bound) =
      max 54 t := by
  have hnumLow : 2 ^ (num.log2 + k) ≤ num * 2 ^ k := pow_le_mul_pow hnum (Nat.le_refl _)
  have hnumHigh : num * 2 ^ k < 2 ^ (num.log2 + 1 + k) := by
    rw [Nat.pow_add]
    exact Nat.mul_lt_mul_of_pos_right Nat.lt_log2_self (Nat.two_pow_pos k)
  have hdenLow (a : Nat) : 2 ^ (den.log2 + a) ≤ den * 2 ^ a :=
    pow_le_mul_pow (Nat.ne_of_gt hden) (Nat.le_refl _)
  have hdenHigh (a : Nat) : den * 2 ^ a < 2 ^ (den.log2 + 1 + a) := by
    rw [Nat.pow_add]
    exact Nat.mul_lt_mul_of_pos_right Nat.lt_log2_self (Nat.two_pow_pos a)
  simp only [mul_pow_sub_lt_iff]
  split_ifs with hlt
  · have hbelow : t = 54 ∨ t < bound := hlow.imp_right fun h => lt_of_mul_pow_le h hlt
    have habove : 1 < bound → bound - 1 < t + 1 := by
      intro hpos
      refine lt_of_mul_pow_le (Nat.le_trans (Nat.le_of_lt (hdenHigh _)) ?_) hhigh
      rwa [show den.log2 + 1 + (bound - 1) = num.log2 + k by omega]
    omega
  · have hbelow : t = 54 ∨ t < bound + 1 := by
      refine hlow.imp_right fun h => lt_of_mul_pow_le h (Nat.lt_of_lt_of_le hnumHigh ?_)
      refine Nat.le_trans (Nat.pow_le_pow_right (by decide) ?_) (hdenLow (bound + 1))
      omega
    have habove : bound < t + 1 := lt_of_mul_pow_le (Nat.not_lt.1 hlt) hhigh
    omega

/-- The binade that `roundedMagnitude` takes. -/
theorem roundedMagnitude_eq {num den p : Nat} (hden : 0 < den)
    (h : InBinade (num * one) den p) :
    roundedMagnitude num den = p * 2 ^ 52 + roundDiv (num * one) (den * 2 ^ p) := by
  by_cases hnum : num = 0
  · subst hnum
    have hp : p = 0 := by
      rcases h.2 with hp | hle
      · exact hp
      · have hpos := Nat.mul_pos hden (Nat.two_pow_pos (p + 52))
        omega
    simp [roundedMagnitude, roundDiv, hp, hden]
  have hfour (n a : Nat) : n * 2 ^ a * 4 = n * 2 ^ (a + 2) := by rw [Nat.pow_add, ← Nat.mul_assoc]
  have hhigh := Nat.mul_lt_mul_of_pos_right h.1 (by decide : 0 < 4)
  have hlow : p + 54 = 54 ∨ _ := h.2.imp (by omega) (Nat.mul_le_mul_right 4)
  rw [one_eq, hfour num 1074, hfour den] at hhigh hlow
  have htop := top_of_bound hnum hden rfl hhigh hlow
  simp only [Nat.reduceAdd] at htop
  simp only [roundedMagnitude, hnum, if_false]
  generalize (if num * _ < _ then _ else _) = top at *
  have hb : max 1 (top - 53) = p + 1 := by omega
  have hup : 1075 - (p + 1) = 1074 - p := by omega
  have hdown : p + 1 - 1075 = p - 1074 := by omega
  rw [hb, Nat.add_sub_cancel, hup, hdown, roundDiv_pow_sub, one_eq]

/-! ## Rounding intervals -/

def gap (x : Binary64) (den : Nat) : Nat := den * 2 ^ (x.binade - 1)

/-- The quotient is nearest to the number: it is at most half a gap away, less than that if the
significand is odd, and at most a quarter below a power of two. -/
structure Nearest (x : Binary64) (num den : Nat) : Prop where
  low : 2 * (x.significand * x.gap den) ≤ 2 * (num * one) + x.gap den
  high : 2 * (num * one) ≤ 2 * (x.significand * x.gap den) + x.gap den
  odd : x.significand % 2 = 1 →
    2 * (x.significand * x.gap den) < 2 * (num * one) + x.gap den ∧
      2 * (num * one) < 2 * (x.significand * x.gap den) + x.gap den
  power : x.significand = 2 ^ 52 → 1 < x.binade →
    4 * (2 ^ 52 * x.gap den) ≤ 4 * (num * one) + x.gap den

/-- A number is what the quotients are rounded to that are nearest to it. -/
theorem Nearest.roundedMagnitude_eq {x : Binary64} {num den : Nat} (h : x.Nearest num den)
    (hden : 0 < den) : roundedMagnitude num den = x.magnitude := by
  have hpos : 0 < x.gap den := Nat.mul_pos hden (Nat.two_pow_pos _)
  have hs := x.significand_lt
  have hgap (k : Nat) : den * 2 ^ (x.binade - 1 + k) = 2 ^ k * x.gap den := by
    rw [gap, Nat.pow_add, ← Nat.mul_assoc, Nat.mul_comm]
  rw [magnitude_eq]
  by_cases hbelow : 1 < x.binade ∧ num * one < 2 ^ 52 * x.gap den
  · -- just below a power of two, where the gaps are half as wide
    obtain ⟨hb, hlt⟩ := hbelow
    have hpower : x.significand = 2 ^ 52 := by
      have hle := (x.binade_eq_one_or).resolve_left (by omega)
      by_contra hne
      have hmul := Nat.mul_le_mul_right (x.gap den) (show 2 ^ 52 + 1 ≤ x.significand by omega)
      have hlow := h.low
      omega
    have hlow := h.power hpower hb
    have hhalf : x.gap den = 2 * (den * 2 ^ (x.binade - 2)) := by
      rw [gap, show x.binade - 1 = x.binade - 2 + 1 by omega, Nat.pow_succ]
      ac_rfl
    have hbinade : InBinade (num * one) den (x.binade - 2) := by
      rw [InBinade, show x.binade - 2 + 53 = x.binade - 1 + 52 by omega, hgap,
        Nat.pow_add, ← Nat.mul_assoc]
      omega
    have hround : roundDiv (num * one) (den * 2 ^ (x.binade - 2)) = 2 ^ 53 := by
      refine roundDiv_eq (by omega) ?_ ?_ ?_ <;> omega
    rw [Binary64.roundedMagnitude_eq hden hbinade, hround, hpower]
    omega
  · have hbinade : InBinade (num * one) den (x.binade - 1) := by
      have hmul := Nat.mul_le_mul_right (x.gap den) (show x.significand ≤ 2 ^ 53 - 1 by omega)
      have hhigh := h.high
      rw [InBinade, hgap, hgap]
      omega
    rw [Binary64.roundedMagnitude_eq hden hbinade]
    exact congrArg _ (roundDiv_eq hpos h.low h.high h.odd)

/-! ## Order -/

theorem InBinade.le {num den p q : Nat} (hp : InBinade num den p)
    (hq : q = 0 ∨ den * 2 ^ (q + 52) ≤ num) : q ≤ p := by
  rcases hq with rfl | hq
  · exact Nat.zero_le p
  · have hlt := lt_of_mul_pow_le hq hp.1
    omega

/-- Rounding keeps the order of quotients. -/
theorem roundedMagnitude_mono {num den num' den' : Nat} (hden : 0 < den) (hden' : 0 < den')
    (h : num * den' ≤ num' * den) : roundedMagnitude num den ≤ roundedMagnitude num' den' := by
  obtain ⟨p, hp⟩ := exists_inBinade (num * one) hden
  obtain ⟨p', hp'⟩ := exists_inBinade (num' * one) hden'
  rw [roundedMagnitude_eq hden hp, roundedMagnitude_eq hden' hp']
  have hunits : num * one * den' ≤ num' * one * den := by
    rw [Nat.mul_right_comm, Nat.mul_right_comm num']
    exact Nat.mul_le_mul_right one h
  have hswap (a b c : Nat) : a * b * c = c * b * a := by ac_rfl
  have hle : p ≤ p' := by
    refine hp'.le (hp.2.imp_right fun hlow => Nat.le_of_mul_le_mul_right ?_ hden)
    calc den' * 2 ^ (p + 52) * den = den * 2 ^ (p + 52) * den' := hswap ..
      _ ≤ num * one * den' := Nat.mul_le_mul_right den' hlow
      _ ≤ num' * one * den := hunits
  rcases Nat.lt_or_eq_of_le hle with hlt | rfl
  · have hup : roundDiv (num * one) (den * 2 ^ p) ≤ 2 ^ 53 := by
      refine roundDiv_le (Nat.mul_pos hden (Nat.two_pow_pos p)) ?_
      have hhigh := hp.1
      rw [Nat.pow_add, ← Nat.mul_assoc, Nat.mul_comm (den * 2 ^ p)] at hhigh
      exact Nat.le_of_lt hhigh
    have hdown : 2 ^ 52 ≤ roundDiv (num' * one) (den' * 2 ^ p') := by
      refine le_roundDiv (Nat.mul_pos hden' (Nat.two_pow_pos p')) ?_
      have hlow := hp'.2.resolve_left (by omega)
      rwa [Nat.pow_add, ← Nat.mul_assoc, Nat.mul_comm (den' * 2 ^ p')] at hlow
    omega
  · refine Nat.add_le_add_left ?_ _
    rw [← roundDiv_mul_right _ _ den' hden', ← roundDiv_mul_right (num' * one) _ den hden,
      hswap den']
    exact roundDiv_mono hunits _

end Binary64

end CacheBench
