import CacheBench.Proofs.NearestNumber

/-!
# Shortest decimals are nearest

The grid point that a search hits lies in the rounding interval of the number, so the decimal is
rounded to the number. A search always hits: on the finest grid the points lie closer than the
interval is wide. A decimal has few digits, since the grid before was too coarse for the interval.
-/

namespace CacheBench

namespace Decimal

def numerator (d : Decimal) : Nat := d.digits * 10 ^ d.exponent.toNat

def denominator (d : Decimal) : Nat := 10 ^ (-d.exponent).toNat

theorem denominator_pos (d : Decimal) : 0 < d.denominator := Nat.pow_pos (by decide)

end Decimal

namespace Binary64

variable {x : Binary64} {tie : Tie} {grid : Int} {digits : Nat}

theorem gridRatio_mul (x : Binary64) (grid : Int) :
    (x.gridRatio grid).1 * 2 ^ min (x.binade - 1) 1076 = x.gap (10 ^ (-grid).toNat) ∧
      (x.gridRatio grid).2 * 2 ^ min (x.binade - 1) 1076 = 10 ^ grid.toNat * one * 4 := by
  have hb := x.one_le_binade
  have hlow : x.binade - 1077 + min (x.binade - 1) 1076 = x.binade - 1 := by omega
  have hhigh : 1077 - x.binade + min (x.binade - 1) 1076 = 1074 + 2 := by omega
  have hpower (a b n : Nat) : 2 ^ a * n * 2 ^ b = n * 2 ^ (a + b) := by
    rw [Nat.pow_add]
    ac_rfl
  have hone {k a : Nat} (hk : one = 2 ^ k) (h : a = k + 2) : 2 ^ a = one * 4 := by
    rw [h, hk, Nat.pow_add]
  constructor
  · rw [gridRatio, hpower, hlow]
    rfl
  · rw [gridRatio, hpower, hone one_eq hhigh, Nat.mul_assoc]

/-- A comparison on the grid is one of units. -/
theorem compare_grid (x : Binary64) (grid : Int) (a digits : Nat) :
    (a * (x.gridRatio grid).1 ≤ digits * (x.gridRatio grid).2 ↔
      a * x.gap (10 ^ (-grid).toNat) ≤ 4 * (digits * 10 ^ grid.toNat * one)) ∧
    (digits * (x.gridRatio grid).2 ≤ a * (x.gridRatio grid).1 ↔
      4 * (digits * 10 ^ grid.toNat * one) ≤ a * x.gap (10 ^ (-grid).toNat)) := by
  obtain ⟨hnum, hden⟩ := x.gridRatio_mul grid
  have hpos : 0 < 2 ^ min (x.binade - 1) 1076 := Nat.two_pow_pos _
  have hdigits : digits * (10 ^ grid.toNat * one * 4) = 4 * (digits * 10 ^ grid.toNat * one) := by
    ac_rfl
  rw [← hnum, ← hdigits, ← hden, ← Nat.mul_assoc, ← Nat.mul_assoc, Nat.mul_le_mul_right_iff hpos,
    Nat.mul_le_mul_right_iff hpos]
  exact ⟨.rfl, .rfl⟩

theorem nearest_of_contains
    (h : x.interval.contains (x.gridRatio grid).1 (x.gridRatio grid).2 digits) :
    x.Nearest (digits * 10 ^ grid.toNat) (10 ^ (-grid).toNat) := by
  have hlow := fun a => (x.compare_grid grid a digits).1
  have hhigh := fun a => (x.compare_grid grid a digits).2
  have hlt := fun a => not_congr (hlow a)
  have hgt := fun a => not_congr (hhigh a)
  simp only [Nat.not_le] at hlt hgt
  unfold Interval.contains interval at h
  generalize x.gridRatio grid = ratio at *
  dsimp only at h
  split at h
  · rename_i heven
    simp only [Bool.and_eq_true, decide_eq_true_eq, hlow, hhigh] at h heven
    simp only [Nat.sub_mul, Nat.add_mul, Nat.mul_assoc 4] at h
    constructor
    · split_ifs at h <;> omega
    · omega
    · omega
    · intro hs hb
      rw [if_pos ⟨hs, hb⟩, hs] at h
      omega
  · rename_i hodd
    simp only [Bool.and_eq_true, decide_eq_true_eq, hlt, hgt] at h hodd
    simp only [Nat.sub_mul, Nat.add_mul, Nat.mul_assoc 4] at h
    have hpower : ¬ (x.significand = 2 ^ 52 ∧ 1 < x.binade) := by omega
    rw [if_neg hpower] at h
    constructor <;> omega

theorem contains_of_onGrid? (h : x.onGrid? tie grid = some digits) :
    x.interval.contains (x.gridRatio grid).1 (x.gridRatio grid).2 digits := by
  unfold onGrid? at h
  generalize x.gridRatio grid = ratio at *
  obtain ⟨num, den⟩ := ratio
  dsimp only at h ⊢
  split at h
  · cases h
  · cases h
    assumption
  · cases h
    assumption
  · rename_i hdown hup
    have heven (n : Nat) : n + n % 2 = n ∨ n + n % 2 = n + 1 := by omega
    have hdigits : digits = x.interval.middle * num / den ∨
        digits = x.interval.middle * num / den + 1 := by
      split_ifs at h
      · exact .inl (Option.some.inj h).symm
      · exact .inr (Option.some.inj h).symm
      · split at h
        · exact .inr (Option.some.inj h).symm
        · rw [← Option.some.inj h]
          exact heven _
    rcases hdigits with rfl | rfl
    · exact hdown
    · exact hup

theorem not_contains_of_onGrid? (h : x.onGrid? tie grid = none) :
    ¬ x.interval.contains (x.gridRatio grid).1 (x.gridRatio grid).2
        (x.interval.middle * (x.gridRatio grid).1 / (x.gridRatio grid).2) ∧
      ¬ x.interval.contains (x.gridRatio grid).1 (x.gridRatio grid).2
        (x.interval.middle * (x.gridRatio grid).1 / (x.gridRatio grid).2 + 1) := by
  unfold onGrid? at h
  dsimp only at h
  split at h
  · rename_i hdown hup
    rw [hdown, hup]
    exact ⟨Bool.false_ne_true, Bool.false_ne_true⟩
  · cases h
  · cases h
  · split_ifs at h
    split at h <;> cases h

/-! ## The search -/

theorem shortestFrom_eq_some {steps : Nat} {d : Decimal}
    (h : shortestFrom tie x grid steps = some d) :
    x.onGrid? tie d.exponent = some d.digits ∧ d.exponent ≤ grid ∧ grid < d.exponent + steps ∧
      (d.exponent = grid ∨ x.onGrid? tie (d.exponent + 1) = none) := by
  induction steps generalizing grid with
  | zero => cases h
  | succ steps ih =>
      rw [shortestFrom] at h
      split at h
      · rename_i digits hgrid
        cases h
        exact ⟨hgrid, Int.le_refl _, by simp only; omega, .inl rfl⟩
      · rename_i hgrid
        obtain ⟨hsome, hle, hlt, hcoarse⟩ := ih h
        refine ⟨hsome, by omega, by omega, .inr ?_⟩
        rcases hcoarse with heq | hnone
        · rwa [heq, Int.sub_add_cancel]
        · exact hnone

theorem exists_shortestFrom {steps : Nat} {finest : Int} (hfinest : x.onGrid? tie finest ≠ none)
    (hle : finest ≤ grid) (hlt : grid < finest + steps) :
    ∃ d, shortestFrom tie x grid steps = some d := by
  induction steps generalizing grid with
  | zero => omega
  | succ steps ih =>
      rw [shortestFrom]
      cases hgrid : x.onGrid? tie grid with
      | some digits => exact ⟨_, rfl⟩
      | none =>
          have hne : finest ≠ grid := by
            rintro rfl
            exact hfinest hgrid
          exact ih (by omega) (by omega)

theorem Interval.contains_of_lt {i : Interval} {num den point : Nat}
    (hlow : i.low * num < point * den) (hhigh : point * den < i.high * num) :
    i.contains num den point := by
  unfold contains
  split
  · simp only [Bool.and_eq_true, decide_eq_true_eq]
    exact ⟨Nat.le_of_lt hlow, Nat.le_of_lt hhigh⟩
  · simp only [Bool.and_eq_true, decide_eq_true_eq]
    exact ⟨hlow, hhigh⟩

/-- A grid is fine enough if its points are no farther apart than the lower end of the interval is
from the number. -/
theorem onGrid?_ne_none {num den : Nat} (hgrid : x.gridRatio grid = (num, den)) (hnum : 0 < num)
    (hden : 0 < den) (hfine : x.interval.low * num + den ≤ x.interval.middle * num) :
    x.onGrid? tie grid ≠ none := by
  intro hnone
  refine (not_contains_of_onGrid? hnone).1 ?_
  rw [hgrid]
  have hdiv := Nat.div_add_mod' (x.interval.middle * num) den
  have hmod := Nat.mod_lt (x.interval.middle * num) hden
  have hhigh : x.interval.high * num = x.interval.middle * num + 2 * num := Nat.add_mul ..
  apply Interval.contains_of_lt
  · dsimp only
    omega
  · dsimp only
    omega

/-- For each binade there is a grid that fine. -/
theorem onGrid?_fine (hs : 0 < x.significand) (tie : Tie) {e g : Nat} (he : 1075 ≤ e)
    (hg : 2 ^ e ≤ 10 ^ g) :
    x.onGrid? tie (-(g : Int)) ≠ none := by
  have hb := x.one_le_binade
  have hnum : 10 ^ g ≤ 2 ^ (x.binade - 1077) * 10 ^ g :=
    Nat.le_mul_of_pos_left _ (Nat.two_pow_pos _)
  have hgrid : x.gridRatio (-(g : Int)) =
      (2 ^ (x.binade - 1077) * 10 ^ g, 2 ^ (1077 - x.binade)) := by
    simp [gridRatio]
  refine onGrid?_ne_none hgrid (Nat.mul_pos (Nat.two_pow_pos _) (Nat.pow_pos (by decide)))
    (Nat.two_pow_pos _) ?_
  simp only [interval, Nat.sub_mul]
  have hmiddle := Nat.mul_le_mul_right (2 ^ (x.binade - 1077) * 10 ^ g)
    (show 4 ≤ 4 * x.significand by omega)
  split_ifs with hpower
  · have hden : 2 ^ (1077 - x.binade) ≤ 2 ^ e := Nat.pow_le_pow_right (by decide) (by omega)
    omega
  · have hden : 2 ^ (1077 - x.binade) ≤ 2 ^ (e + 1) :=
      Nat.pow_le_pow_right (by decide) (by omega)
    rw [Nat.pow_succ] at hden
    omega

theorem two_pow_le_ten_pow : 2 ^ 1075 ≤ 10 ^ 324 := by decide +kernel

/-- A positive number has a shortest decimal. -/
theorem shortest_eq_some (hs : 0 < x.significand) (tie : Tie) :
    x.onGrid? tie (x.shortest tie).exponent = some (x.shortest tie).digits ∧
      (x.shortest tie).exponent ≤ 308 ∧ -325 < (x.shortest tie).exponent ∧
      ((x.shortest tie).exponent = 308 ∨ x.onGrid? tie ((x.shortest tie).exponent + 1) = none) := by
  have hfinest := onGrid?_fine hs tie (Nat.le_refl _) two_pow_le_ten_pow
  have hfound : ∃ d, shortestFrom tie x 308 633 = some d :=
    exists_shortestFrom hfinest (by decide) (by decide)
  obtain ⟨d, hd⟩ := hfound
  have hshortest : x.shortest tie = d := by rw [shortest, hd, Option.getD_some]
  rw [hshortest]
  obtain ⟨hsome, hle, hlt, hcoarse⟩ := shortestFrom_eq_some hd
  exact ⟨hsome, hle, by omega, hcoarse⟩

theorem nearest_shortest (hs : 0 < x.significand) (tie : Tie) :
    x.Nearest (x.shortest tie).numerator (x.shortest tie).denominator :=
  nearest_of_contains (contains_of_onGrid? (shortest_eq_some hs tie).1)

/-! ## Few digits -/

theorem digits_pos (hs : 0 < x.significand) (tie : Tie) : 0 < (x.shortest tie).digits := by
  have hlow := (nearest_shortest hs tie).low
  have hgap : 0 < x.gap (x.shortest tie).denominator :=
    Nat.mul_pos (Decimal.denominator_pos _) (Nat.two_pow_pos _)
  have hmul := Nat.mul_le_mul_right (x.gap (x.shortest tie).denominator) hs
  by_contra hzero
  rw [Decimal.numerator, Nat.eq_zero_of_not_pos hzero, Nat.zero_mul, Nat.zero_mul] at hlow
  omega

/-- A grid without a point in the interval is coarser than the interval is wide. -/
theorem width_le_of_onGrid? (hs : 0 < x.significand) {num den : Nat}
    (hgrid : x.gridRatio grid = (num, den)) (hnum : 0 < num) (hden : 0 < den)
    (h : x.onGrid? tie grid = none) : 3 * num ≤ den := by
  obtain ⟨hdown, hup⟩ := not_contains_of_onGrid? h
  rw [hgrid] at hdown hup
  dsimp only at hdown hup
  have hdiv := Nat.div_add_mod' (x.interval.middle * num) den
  have hmod := Nat.mod_lt (x.interval.middle * num) hden
  generalize x.interval.middle * num / den = down at *
  have hsucc : (down + 1) * den = down * den + den := Nat.succ_mul down den
  have hmiddle := Nat.mul_le_mul_right num
    (show 4 ≤ x.interval.middle from Nat.mul_le_mul_left 4 hs)
  have hhigh : x.interval.high * num = x.interval.middle * num + 2 * num := Nat.add_mul ..
  have hlow : x.interval.low * num + num ≤ x.interval.middle * num := by
    have hbelow : x.interval.low + 1 ≤ x.interval.middle := by
      simp only [interval]
      split_ifs <;> omega
    have hmul := Nat.mul_le_mul_right num hbelow
    rwa [Nat.succ_mul] at hmul
  have hdown' := mt (fun h : _ ∧ _ => Interval.contains_of_lt h.1 h.2) hdown
  have hup' := mt (fun h : _ ∧ _ => Interval.contains_of_lt h.1 h.2) hup
  omega

theorem gridRatio_pos (x : Binary64) (grid : Int) :
    0 < (x.gridRatio grid).1 ∧ 0 < (x.gridRatio grid).2 :=
  ⟨Nat.mul_pos (Nat.two_pow_pos _) (Nat.pow_pos (by decide)),
    Nat.mul_pos (Nat.two_pow_pos _) (Nat.pow_pos (by decide))⟩

/-- A grid is ten times as fine as the one before. -/
theorem gridRatio_le (h : 3 * (x.gridRatio (grid + 1)).1 ≤ (x.gridRatio (grid + 1)).2) :
    3 * (x.gridRatio grid).1 ≤ 10 * (x.gridRatio grid).2 := by
  simp only [gridRatio] at *
  rcases Int.lt_or_le grid 0 with hneg | hnonneg
  · have hexp : (-grid).toNat = (-(grid + 1)).toNat + 1 := by omega
    have hzero : grid.toNat = 0 ∧ (grid + 1).toNat = 0 := by omega
    rw [hzero.2] at h
    rw [hexp, hzero.1, Nat.pow_succ, ← Nat.mul_assoc (2 ^ (x.binade - 1077))]
    omega
  · have hexp : (grid + 1).toNat = grid.toNat + 1 := by omega
    have hzero : (-grid).toNat = 0 ∧ (-(grid + 1)).toNat = 0 := by omega
    rw [hexp, hzero.2, Nat.pow_succ, ← Nat.mul_assoc (2 ^ (1077 - x.binade))] at h
    rw [hzero.1]
    omega

theorem mul_le_of_contains {num den : Nat} (h : x.interval.contains num den digits) :
    digits * den ≤ x.interval.high * num := by
  unfold Interval.contains at h
  split at h <;> simp only [Bool.and_eq_true, decide_eq_true_eq] at h
  · exact h.2
  · exact Nat.le_of_lt h.2

theorem high_lt (x : Binary64) : x.interval.high < 2 ^ 55 := by
  have hs := x.significand_lt
  simp only [interval]
  omega

/-- On the coarsest grid the largest numbers have a digit or two. -/
theorem digits_lt_of_coarsest {e k g p s : Nat} (hg : 2 ^ e ≤ 10 ^ g) (hone : one = 2 ^ k)
    (hp : p ≤ e + k) (hs : s < 2 ^ 53)
    (h : 2 * (digits * 10 ^ g * one) ≤ 2 * (s * 2 ^ p) + 2 ^ p) : digits < 2 ^ 57 := by
  by_contra hdigits
  have hlow : 2 ^ 57 * 2 ^ p ≤ digits * 10 ^ g * one := by
    calc 2 ^ 57 * 2 ^ p ≤ 2 ^ 57 * 2 ^ (e + k) :=
          Nat.mul_le_mul_left _ (Nat.pow_le_pow_right (by decide) hp)
      _ = 2 ^ 57 * 2 ^ e * 2 ^ k := by rw [Nat.pow_add, Nat.mul_assoc]
      _ ≤ digits * 10 ^ g * one := by
          rw [hone]
          exact Nat.mul_le_mul_right _ (Nat.mul_le_mul (Nat.not_lt.1 hdigits) hg)
  have hhigh := Nat.mul_le_mul_right (2 ^ p) (Nat.le_of_lt hs)
  have hpos := Nat.two_pow_pos p
  omega

theorem two_pow_le_coarsest : 2 ^ 1020 ≤ 10 ^ 308 := by decide +kernel

theorem digits_lt (hs : 0 < x.significand) (hfinite : x.isFinite) (tie : Tie) :
    (x.shortest tie).digits < 2 ^ 57 := by
  obtain ⟨hsome, -, -, hcoarse⟩ := shortest_eq_some hs tie
  have hcontains := contains_of_onGrid? hsome
  generalize x.shortest tie = d at *
  rcases hcoarse with htop | hnone
  · have hb := binade_le hfinite
    have hhigh := (nearest_of_contains hcontains).high
    rw [htop, gap] at hhigh
    have hgrid : (-308 : Int).toNat = 0 ∧ (308 : Int).toNat = 308 := by decide
    rw [hgrid.1, hgrid.2, Nat.pow_zero, Nat.one_mul] at hhigh
    exact digits_lt_of_coarsest two_pow_le_coarsest one_eq (by omega) x.significand_lt hhigh
  · obtain ⟨hnum, hden⟩ := x.gridRatio_pos (d.exponent + 1)
    have hfine := gridRatio_le (width_le_of_onGrid? hs rfl hnum hden hnone)
    have hle := mul_le_of_contains hcontains
    obtain ⟨-, hden⟩ := x.gridRatio_pos d.exponent
    generalize x.gridRatio d.exponent = ratio at *
    have hhigh := Nat.mul_le_mul_right (10 * ratio.2) (Nat.le_of_lt x.high_lt)
    have hthree := Nat.mul_le_mul_left x.interval.high hfine
    rw [Nat.mul_left_comm] at hthree
    refine Nat.lt_of_mul_lt_mul_right (a := ratio.2) ?_
    omega

end Binary64

end CacheBench
