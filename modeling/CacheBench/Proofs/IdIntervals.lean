import CacheBench.Proofs.QueryAnswers
import CacheBench.Proofs.ScaledDigits
import Mathlib.Data.EReal.Basic

/-!
# Intervals of ids

A predicate on ids compares the number that is nearest to the id with its bounds. Rounding keeps
the order and leaves the bounds where they are, so an id and a bound are told apart as their exact
values are, unless the id lies below the bound and is rounded up to it. Whole numbers up to `2 ^ 53`
are not rounded. A query on ids returns what its predicate selects.
-/

namespace CacheBench

namespace Binary64

/-- The exact value. A NaN has none, and what is said here of one means nothing. -/
noncomputable def value (x : Binary64) : EReal :=
  if x.isInfinite then if x.isNegative then ⊥ else ⊤
  else ((x.signedNumerator : ℝ) / x.denominator : ℝ)

variable {x : Binary64} {n : Nat}

/-! ## Whole numbers and exact values -/

section Finite

variable (hx : x.isFinite)

include hx

theorem value_of_isFinite : x.value = ((x.signedNumerator : ℝ) / x.denominator : ℝ) := by
  rw [value, isInfinite_of_isFinite hx, if_neg Bool.false_ne_true]

theorem value_le_natCast_iff : x.value ≤ n ↔ x.signedNumerator ≤ n * x.denominator := by
  have hden : (0 : ℝ) < x.denominator := Nat.cast_pos.2 x.denominator_pos
  rw [value_of_isFinite hx, ← EReal.coe_natCast, EReal.coe_le_coe_iff, div_le_iff₀ hden]
  exact_mod_cast Iff.rfl

theorem natCast_le_value_iff :
    n ≤ x.value ↔ (n * x.denominator : Int) ≤ x.signedNumerator := by
  have hden : (0 : ℝ) < x.denominator := Nat.cast_pos.2 x.denominator_pos
  rw [value_of_isFinite hx, ← EReal.coe_natCast, EReal.coe_le_coe_iff, le_div_iff₀ hden]
  exact_mod_cast Iff.rfl

end Finite

/-! ## Rounding and order -/

/-- A number is what its own value is rounded to. -/
theorem roundedMagnitude_self (x : Binary64) :
    roundedMagnitude x.numerator x.denominator = x.magnitude := by
  have hunits : x.numerator * one = x.significand * x.gap x.denominator := by
    rw [← units_mul_denominator, units, gap, Nat.mul_assoc, Nat.mul_comm (2 ^ _)]
  have hgap : 0 < x.gap x.denominator := Nat.mul_pos x.denominator_pos (Nat.two_pow_pos _)
  have hnearest : x.Nearest x.numerator x.denominator := by
    constructor <;> rw [hunits]
    · omega
    · omega
    · omega
    · intro hpower _
      rw [hpower]
      omega
  exact hnearest.roundedMagnitude_eq x.denominator_pos

theorem rank_of_not_isNegative (h : x.isNegative = false) : x.rank = x.magnitude := by
  rw [rank, h, if_neg Bool.false_ne_true]

theorem rank_ofNat (n : Nat) :
    (ofNat n).rank = (min (roundedMagnitude n 1) infinityMagnitude : Nat) := by
  rw [rank_of_not_isNegative (isNegative_ofNat n), ofNat_eq_ofRatio, magnitude_ofRatio]

theorem isNaN_ofNat (n : Nat) : (ofNat n).isNaN = false := by
  rw [isNaN, decide_eq_false_iff_not, ofNat_eq_ofRatio, magnitude_ofRatio]
  omega

theorem magnitude_le_of_not_isNaN (h : x.isNaN = false) : x.magnitude ≤ infinityMagnitude := by
  rw [isNaN, decide_eq_false_iff_not] at h
  omega

theorem cases_of_not_isNaN (h : x.isNaN = false) :
    x.isFinite ∨ x.isInfinite ∧ x.magnitude = infinityMagnitude := by
  have hle := magnitude_le_of_not_isNaN h
  simp only [isFinite, isInfinite, decide_eq_true_eq]
  omega

/-- Rounding does not take a whole number below a number that it reaches. -/
theorem rank_le_rank_ofNat (hx : x.isNaN = false) (h : x.value ≤ n) :
    x.rank ≤ (ofNat n).rank := by
  by_cases hsign : x.isNegative
  · have hneg := rank_nonpos hsign
    have hpos := rank_nonneg (x := ofNat n) (by simp [isNegative_ofNat])
    omega
  rw [Bool.not_eq_true] at hsign
  rcases cases_of_not_isNaN hx with hfinite | ⟨hinfinite, -⟩
  · rw [value_le_natCast_iff hfinite, signedNumerator, hsign, if_neg Bool.false_ne_true] at h
    have hround : roundedMagnitude x.numerator x.denominator ≤ roundedMagnitude n 1 := by
      apply roundedMagnitude_mono x.denominator_pos Nat.one_pos
      rw [Nat.mul_one]
      exact_mod_cast h
    rw [roundedMagnitude_self] at hround
    have hlt := isFinite_iff.1 hfinite
    rw [rank_of_not_isNegative hsign, rank_ofNat]
    omega
  · rw [value, if_pos hinfinite, hsign, if_neg Bool.false_ne_true, top_le_iff] at h
    exact absurd h (EReal.natCast_ne_top n)

/-- Rounding does not take a whole number above a number that it does not exceed. -/
theorem rank_ofNat_le_rank (hx : x.isNaN = false) (h : n ≤ x.value) :
    (ofNat n).rank ≤ x.rank := by
  rcases cases_of_not_isNaN hx with hfinite | ⟨hinfinite, hmagnitude⟩
  · rw [natCast_le_value_iff hfinite, signedNumerator] at h
    by_cases hsign : x.isNegative
    · -- only negative zero is not below every whole number
      rw [if_pos hsign] at h
      have hzero : n * x.denominator = 0 ∧ x.numerator = 0 := by
        have hcast : ((n * x.denominator : Nat) : Int) ≤ -(x.numerator : Int) := by
          exact_mod_cast h
        omega
      have hn : n = 0 := (Nat.mul_eq_zero.1 hzero.1).resolve_right
        (Nat.ne_of_gt x.denominator_pos)
      have hmagnitude : x.magnitude = 0 := by
        rw [← roundedMagnitude_self, hzero.2, roundedMagnitude, if_pos rfl]
      rw [rank_ofNat, rank, if_pos hsign, hmagnitude, hn, roundedMagnitude, if_pos rfl]
      simp
    · rw [if_neg hsign] at h
      rw [Bool.not_eq_true] at hsign
      have hround : roundedMagnitude n 1 ≤ roundedMagnitude x.numerator x.denominator := by
        apply roundedMagnitude_mono Nat.one_pos x.denominator_pos
        rw [Nat.mul_one]
        exact_mod_cast h
      rw [roundedMagnitude_self] at hround
      rw [rank_of_not_isNegative hsign, rank_ofNat]
      omega
  · by_cases hsign : x.isNegative
    · rw [value, if_pos hinfinite, if_pos hsign, le_bot_iff] at h
      exact absurd h (EReal.natCast_ne_bot n)
    · rw [Bool.not_eq_true] at hsign
      rw [rank_of_not_isNegative hsign, rank_ofNat, hmagnitude]
      omega

theorem isNegative_of_lt_value (hx : x.isNaN = false) (h : n < x.value) :
    x.isNegative = false := by
  by_contra hsign
  rw [Bool.not_eq_false] at hsign
  rcases cases_of_not_isNaN hx with hfinite | ⟨hinfinite, -⟩
  · rw [← not_le, value_le_natCast_iff hfinite, signedNumerator, if_pos hsign] at h
    apply h
    have hpos : (0 : Int) ≤ n * x.denominator := by positivity
    omega
  · rw [value, if_pos hinfinite, if_pos hsign] at h
    exact not_lt_bot h

/-- Of a number above `n` and what `n` is rounded to, neither comes first only if they are one. -/
theorem ofNat_eq_of_rank_eq (hx : x.isNaN = false) (h : n < x.value)
    (hrank : (ofNat n).rank = x.rank) : ofNat n = x := by
  apply totalRank_injective
  rw [totalRank_eq_rank, totalRank_eq_rank, isNegative_ofNat, isNegative_of_lt_value hx h, hrank]

theorem le_ofNat_iff (hx : x.isNaN = false) :
    x.le (ofNat n) ↔ x.value ≤ n ∨ ofNat n = x := by
  rw [le, hx, isNaN_ofNat, Bool.not_false, Bool.true_and, Bool.true_and, decide_eq_true_eq]
  constructor
  · intro h
    by_cases hle : x.value ≤ n
    · exact .inl hle
    · rw [not_le] at hle
      have hge := rank_ofNat_le_rank hx hle.le
      exact .inr (ofNat_eq_of_rank_eq hx hle (by omega))
  · rintro (h | h)
    · exact rank_le_rank_ofNat hx h
    · rw [h]

theorem ofNat_lt_iff (hx : x.isNaN = false) :
    (ofNat n).lt x ↔ n < x.value ∧ ofNat n ≠ x := by
  rw [lt, hx, isNaN_ofNat, Bool.not_false, Bool.true_and, Bool.true_and, decide_eq_true_eq]
  constructor
  · intro h
    refine ⟨?_, ?_⟩
    · by_contra hle
      have hrank := rank_le_rank_ofNat hx (not_lt.1 hle)
      omega
    · intro heq
      rw [heq] at h
      omega
  · rintro ⟨hlt, hne⟩
    have hle := rank_ofNat_le_rank hx hlt.le
    have hrank : (ofNat n).rank ≠ x.rank := fun heq => hne (ofNat_eq_of_rank_eq hx hlt heq)
    omega

theorem Whole.value_eq (h : x.Whole n) : x.value = n := by
  have hnumerator : x.signedNumerator = n * x.denominator := by
    rw [signedNumerator, h.sign, if_neg Bool.false_ne_true, h.numerator, Int.natCast_mul]
  apply le_antisymm
  · exact (value_le_natCast_iff h.isFinite).2 hnumerator.le
  · exact (natCast_le_value_iff h.isFinite).2 hnumerator.ge

/-- Whole numbers up to `2 ^ 53` are not rounded. -/
theorem value_ofNat (h : n ≤ 2 ^ 53) : (ofNat n).value = n := by
  rcases Nat.lt_or_eq_of_le h with hlt | rfl
  · exact (whole_ofNat hlt).value_eq
  · have hwhole : (ofNat (2 ^ 53)).Whole (2 ^ 53) :=
      ⟨by decide +kernel, by decide +kernel, by decide +kernel⟩
    exact hwhole.value_eq

end Binary64

namespace Predicate

open Binary64

/-- The id lies in the interval, save that an id which is below a bound and is rounded up to it
counts as the bound. -/
def Spans (min max : Binary64) (id : Nat) : Prop :=
  (min.value ≤ id ∨ ofNat id = min) ∧ id < max.value ∧ ofNat id ≠ max

variable {min max : Binary64}

theorem holds_id_iff (hmin : min.isNaN = false) (hmax : max.isNaN = false) (r : Record) :
    (Predicate.mk .id min max).holds r ↔ Spans min max r.id.toNat := by
  rw [holds, Bool.and_eq_true]
  exact and_congr (le_ofNat_iff hmin) (ofNat_lt_iff hmax)

/-- Where the id is not rounded, nothing is taken for a bound but the bound. -/
theorem spans_iff_of_exact {id : Nat} (h : (ofNat id).value = id) :
    Spans min max id ↔ min.value ≤ id ∧ id < max.value := by
  constructor
  · rintro ⟨hmin, hmax, -⟩
    refine ⟨hmin.elim (fun hle => hle) fun heq => ?_, hmax⟩
    rw [← heq, h]
  · rintro ⟨hmin, hmax⟩
    refine ⟨.inl hmin, hmax, fun heq => ?_⟩
    rw [← heq, h] at hmax
    exact lt_irrefl _ hmax

/-- Ids are told apart from the bounds exactly up to `2 ^ 53`, on one side or the other. -/
theorem spans_iff_of_le {id : Nat} (h : id ≤ 2 ^ 53 ∨ max.value ≤ (2 ^ 53 : Nat)) :
    Spans min max id ↔ min.value ≤ id ∧ id < max.value := by
  by_cases hid : id ≤ 2 ^ 53
  · exact spans_iff_of_exact (value_ofNat hid)
  · -- the id is beyond both ends
    have hend : ¬ id < max.value := by
      have hle : ((2 ^ 53 : Nat) : EReal) ≤ id := EReal.natCast_le_iff.2 (by omega)
      exact not_lt.2 ((h.resolve_left hid).trans hle)
    rw [Spans]
    tauto

/-- Halfway between two numbers that follow each other. The upper one is the even one of them. -/
def roundedUp : Record := { Record.forIndex 1 with id := 9007199254740995 }

def aboveRoundedUp : Binary64 := ofNat 9007199254740996

theorem roundedUp_lt : (roundedUp.id.toNat : EReal) < aboveRoundedUp.value := by
  rw [← not_le, value_le_natCast_iff (by decide +kernel)]
  decide +kernel

/-- The interval is not always that of the exact values: an id below it may be rounded into it. -/
theorem id_interval_not_exact :
    ¬ ∀ (r : Record) (min max : Binary64), min.isNaN = false → max.isNaN = false →
      ((Predicate.mk .id min max).holds r ↔
        min.value ≤ r.id.toNat ∧ r.id.toNat < max.value) := by
  intro h
  have hexact := h roundedUp aboveRoundedUp (infinity false) (by decide +kernel) (by decide +kernel)
  have hholds : (Predicate.mk .id aboveRoundedUp (infinity false)).holds roundedUp := by
    decide +kernel
  exact not_le.2 roundedUp_lt (hexact.1 hholds).1

end Predicate

namespace Cache

open Binary64 Predicate

/-- Ids are in the interval or not as their exact values are, up to ids that are rounded up to a
bound, and a query after any run returns what is stored with such ids. -/
theorem id_query_of_run (settings : Settings) (rs : List Request) {min max : Binary64}
    (hmin : min.isNaN = false) (hmax : max.isNaN = false) :
    let c := ((ofSettings settings).run rs).2
    (∀ r : Record, (Predicate.mk .id min max).holds r ↔ Spans min max r.id.toNat) ∧
      (∀ id : Nat, id ≤ 2 ^ 53 ∨ max.value ≤ (2 ^ 53 : Nat) →
        (Spans min max id ↔ min.value ≤ id ∧ id < max.value)) ∧
      ∃ found : List (Key × Record),
        (c.step (.query ⟨.id, min, max⟩)).1 = .ok (found.map Prod.snd) ∧
        (found.map Prod.fst).Nodup ∧
        ∀ k r, (k, r) ∈ found ↔
          c.store.get k = some (.record r) ∧ Spans min max r.id.toNat := by
  intro c
  refine ⟨holds_id_iff hmin hmax, fun id => spans_iff_of_le, ?_⟩
  have hscan : ¬ (c.store.settings.indexed ∧ (Predicate.mk .id min max).field = .salary) := by
    rintro ⟨-, hfield⟩
    cases hfield
  have hanswer : c.store.QueryAnswer ⟨.id, min, max⟩ (c.store.query ⟨.id, min, max⟩) := by
    apply Store.queryAnswer_query
    intro hi
    rw [settings_run] at hi
    exact indexMatches_run hi Entries.indexMatches_empty rs
  obtain ⟨found, hfound, hnodup, -, hmem⟩ := hanswer.by_id hscan
  refine ⟨found, congrArg Except.ok hfound, hnodup, fun k r => ?_⟩
  rw [hmem, holds_id_iff hmin hmax]

/-- A record is returned whose id is below the interval. -/
theorem id_query_of_run_roundedUp :
    aboveRoundedUp.isNaN = false ∧ (infinity false).isNaN = false ∧
      (roundedUp.id.toNat : EReal) < aboveRoundedUp.value ∧
      ∃ found : List (Key × Record),
        (((ofSettings { name := queryCache }).run [.put 1 (.record roundedUp)]).2.step
          (.query ⟨.id, aboveRoundedUp, infinity false⟩)).1 = .ok (found.map Prod.snd) ∧
        (1, roundedUp) ∈ found := by
  have hmin : aboveRoundedUp.isNaN = false := by decide +kernel
  have hmax : (infinity false).isNaN = false := by decide +kernel
  obtain ⟨hholds, -, found, hanswer, -, hmem⟩ :=
    id_query_of_run { name := queryCache } [.put 1 (.record roundedUp)] hmin hmax
  refine ⟨hmin, hmax, roundedUp_lt, found, hanswer, (hmem 1 roundedUp).2 ⟨by decide +kernel, ?_⟩⟩
  exact (hholds roundedUp).1 (by decide +kernel)

end Cache

end CacheBench
