import CacheBench.Generator
import Mathlib.Data.Finset.Card
import Mathlib.Data.Finset.Prod
import Mathlib.Data.Nat.Bitwise
import Mathlib.Tactic.LinearCombination
import Mathlib.Tactic.Ring

/-!
# Seeds of workers

The number of a worker is multiplied by an odd constant and mixed into the seed of the run, so no
two workers of a run have one seed. SplitMix64 would expand different seeds into different
generators: each of its words is a bijective image of the seed. The permuted congruential generator
that expands them here passes through different states from different seeds, but hides a rotation of
five bits in each of its outputs. Outputs and rotations of two steps in a row give the seed back, so
a generator comes from at most `1024` seeds. The generator of zeros comes from none.
-/

namespace CacheBench

namespace Generator

/-! ## Operations without loss -/

theorem eq_of_mul_eq {c d x y : UInt64} (hinverse : c * d = 1) (h : x * c = y * c) : x = y :=
  calc x = x * c * d := by rw [UInt64.mul_assoc, hinverse, UInt64.mul_one]
    _ = y * c * d := by rw [h]
    _ = y := by rw [UInt64.mul_assoc, hinverse, UInt64.mul_one]

theorem eq_of_xor_shiftRight_eq {k m n : Nat} (hk : 0 < k) (h : m ^^^ m >>> k = n ^^^ n >>> k) :
    m = n := by
  -- what the two differ in is its own shift
  have hdiffer : (m ^^^ n) ^^^ (m ^^^ n) >>> k = 0 := by
    calc (m ^^^ n) ^^^ (m ^^^ n) >>> k = (m ^^^ m >>> k) ^^^ (n ^^^ n >>> k) := by
          rw [Nat.shiftRight_xor_distrib]
          ac_rfl
      _ = 0 := by rw [h, Nat.xor_self]
  rw [Nat.xor_eq_zero_iff, Nat.shiftRight_eq_div_pow] at hdiffer
  rw [← Nat.xor_eq_zero_iff]
  by_contra hne
  have hlt := Nat.div_lt_self (Nat.pos_of_ne_zero hne) (Nat.one_lt_two_pow (Nat.ne_of_gt hk))
  omega

theorem eq_of_xor_word_shiftRight_eq {k x y : UInt64} (hk : 0 < k.toNat % 64)
    (h : x ^^^ x >>> k = y ^^^ y >>> k) : x = y := by
  apply UInt64.toNat_inj.1
  have htoNat := congrArg UInt64.toNat h
  simp only [UInt64.toNat_xor, UInt64.toNat_shiftRight] at htoNat
  exact eq_of_xor_shiftRight_eq hk htoNat

/-! ## Seeds -/

theorem eq_of_workerSeed_eq {base a b : UInt64} (h : workerSeed base a = workerSeed base b) :
    a = b := by
  have hinverse : (0x9e3779b97f4a7c15 : UInt64) * 17428512612931826493 = 1 := by decide
  exact eq_of_mul_eq hinverse ((UInt64.xor_right_inj base).1 h)

theorem eq_of_advanceSeed_eq {s t : UInt64} (h : advanceSeed s = advanceSeed t) : s = t := by
  have hinverse : (6364136223846793005 : UInt64) * 13877824140714322085 = 1 := by decide
  exact eq_of_mul_eq hinverse ((UInt64.add_left_inj _).1 h)

/-- An expansion never comes to the state of another one after as many steps. -/
theorem eq_of_seedState_eq {s t : UInt64} (n : Nat) (h : seedState s n = seedState t n) :
    s = t := by
  induction n with
  | zero => exact h
  | succ n ih => exact ih (eq_of_advanceSeed_eq h)

/-! ## SplitMix64 -/

def splitMixOutput (z : UInt64) : UInt64 :=
  let z := (z ^^^ z >>> 30) * 0xbf58476d1ce4e5b9
  let z := (z ^^^ z >>> 27) * 0x94d049bb133111eb
  z ^^^ z >>> 31

def splitMixWord (seed : UInt64) (i : Nat) : UInt64 :=
  splitMixOutput (seed + .ofNat (i + 1) * 0x9e3779b97f4a7c15)

def splitMixSeeded (seed : UInt64) : Generator :=
  ⟨splitMixWord seed 0, splitMixWord seed 1, splitMixWord seed 2, splitMixWord seed 3⟩

theorem eq_of_splitMixOutput_eq {x y : UInt64} (h : splitMixOutput x = splitMixOutput y) :
    x = y := by
  have hfirst : (0xbf58476d1ce4e5b9 : UInt64) * 10871156337175269513 = 1 := by decide
  have hsecond : (0x94d049bb133111eb : UInt64) * 3573116690164977347 = 1 := by decide
  apply eq_of_xor_word_shiftRight_eq (k := 30) (by decide)
  apply eq_of_mul_eq hfirst
  apply eq_of_xor_word_shiftRight_eq (k := 27) (by decide)
  apply eq_of_mul_eq hsecond
  exact eq_of_xor_word_shiftRight_eq (k := 31) (by decide) h

theorem eq_of_splitMixSeeded_eq {s t : UInt64} (h : splitMixSeeded s = splitMixSeeded t) :
    s = t := by
  have hword : splitMixWord s 0 = splitMixWord t 0 := congrArg Generator.s0 h
  exact (UInt64.add_left_inj _).1 (eq_of_splitMixOutput_eq hword)

/-! ## Outputs and rotations -/

def rotation (state : UInt64) : Nat := state.toNat >>> 59

/-- What is rotated, with the rotation above it. -/
def unrotated (state : UInt64) : Nat := (state.toNat >>> 18 ^^^ state.toNat) >>> 27

theorem rotation_lt (state : UInt64) : rotation state < 32 := by
  have hlt := state.toNat_lt
  rw [rotation, Nat.shiftRight_eq_div_pow]
  omega

theorem unrotated_div (state : UInt64) : unrotated state / 2 ^ 32 = rotation state := by
  have hzero : state.toNat >>> 77 = 0 := by
    rw [Nat.shiftRight_eq_div_pow]
    exact Nat.div_eq_of_lt (state.toNat_lt.trans (by decide))
  rw [unrotated, ← Nat.shiftRight_eq_div_pow, ← Nat.shiftRight_add, Nat.shiftRight_xor_distrib,
    ← Nat.shiftRight_add, hzero, Nat.zero_xor, rotation]

theorem unrotated_eq (state : UInt64) :
    unrotated state = state.toNat >>> 27 ^^^ state.toNat >>> 27 >>> 18 := by
  rw [unrotated, Nat.shiftRight_xor_distrib, ← Nat.shiftRight_add, ← Nat.shiftRight_add,
    Nat.xor_comm]

/-- A rotation to the right takes the lower part to the top. -/
theorem toNat_rotated (x r : UInt32) (hr : r.toNat < 32) :
    (x >>> r ||| x <<< ((32 - r) % 32)).toNat =
      2 ^ (32 - r.toNat) * (x.toNat % 2 ^ r.toNat) + x.toNat / 2 ^ r.toNat := by
  have hx := x.toNat_lt
  have hthirtyTwo : (32 : UInt32).toNat = 32 := rfl
  have hsub : (32 - r).toNat = 32 - r.toNat := by
    rw [UInt32.toNat_sub_of_le _ _ (UInt32.le_iff_toNat_le.2 (by omega)), hthirtyTwo]
  rw [UInt32.toNat_or, UInt32.toNat_shiftRight, UInt32.toNat_shiftLeft, UInt32.toNat_mod, hsub,
    hthirtyTwo, Nat.mod_mod, Nat.mod_eq_of_lt hr, Nat.shiftRight_eq_div_pow, Nat.shiftLeft_eq]
  generalize r.toNat = k at hr
  rcases Nat.eq_zero_or_pos k with rfl | hpos
  · simp [Nat.mod_one, Nat.mod_eq_of_lt hx]
  · have hsplit : 2 ^ 32 = 2 ^ k * 2 ^ (32 - k) := by
      rw [← Nat.pow_add, Nat.add_sub_cancel' (by omega)]
    have hhigh : x.toNat / 2 ^ k < 2 ^ (32 - k) := by
      rw [Nat.div_lt_iff_lt_mul (Nat.two_pow_pos k), Nat.mul_comm, ← hsplit]
      exact hx
    rw [Nat.mod_eq_of_lt (show 32 - k < 32 by omega), hsplit, Nat.mul_mod_mul_right,
      Nat.mul_comm _ (2 ^ (32 - k)), Nat.two_pow_add_eq_or_of_lt hhigh, Nat.or_comm]

theorem toNat_seedOutput (state : UInt64) :
    (seedOutput state).toNat =
      2 ^ (32 - rotation state) * (unrotated state % 2 ^ 32 % 2 ^ rotation state) +
        unrotated state % 2 ^ 32 / 2 ^ rotation state := by
  have hrotation : ((state >>> 59).toUInt32).toNat = rotation state := by
    have hlt := rotation_lt state
    rw [UInt64.toNat_toUInt32, UInt64.toNat_shiftRight]
    exact Nat.mod_eq_of_lt (hlt.trans (by decide))
  have hunrotated :
      ((((state >>> 18) ^^^ state) >>> 27).toUInt32).toNat = unrotated state % 2 ^ 32 := by
    rw [UInt64.toNat_toUInt32, UInt64.toNat_shiftRight, UInt64.toNat_xor, UInt64.toNat_shiftRight]
    rfl
  have h := toNat_rotated ((((state >>> 18) ^^^ state) >>> 27).toUInt32) ((state >>> 59).toUInt32)
    (by rw [hrotation]; exact rotation_lt state)
  rw [hrotation, hunrotated] at h
  exact h

theorem eq_of_rotated_eq {r x y : Nat} (hr : r ≤ 32) (hx : x < 2 ^ 32) (hy : y < 2 ^ 32)
    (h : 2 ^ (32 - r) * (x % 2 ^ r) + x / 2 ^ r = 2 ^ (32 - r) * (y % 2 ^ r) + y / 2 ^ r) :
    x = y := by
  have hsplit : 2 ^ 32 = 2 ^ (32 - r) * 2 ^ r := by
    rw [← Nat.pow_add, Nat.sub_add_cancel hr]
  have hpos : 0 < 2 ^ (32 - r) := Nat.two_pow_pos _
  have hhigh {z : Nat} (hz : z < 2 ^ 32) : z / 2 ^ r < 2 ^ (32 - r) := by
    rw [Nat.div_lt_iff_lt_mul (Nat.two_pow_pos r), ← hsplit]
    exact hz
  have hmod := congrArg (· / 2 ^ (32 - r)) h
  have hdiv := congrArg (· % 2 ^ (32 - r)) h
  simp only [Nat.mul_add_div hpos, Nat.mul_add_mod, Nat.div_eq_of_lt (hhigh hx),
    Nat.div_eq_of_lt (hhigh hy), Nat.mod_eq_of_lt (hhigh hx), Nat.mod_eq_of_lt (hhigh hy),
    Nat.add_zero] at hmod hdiv
  rw [← Nat.div_add_mod x (2 ^ r), ← Nat.div_add_mod y (2 ^ r), hmod, hdiv]

/-- An output and its rotation tell the upper bits of the state. -/
theorem upper_eq_of_seedOutput_eq {s t : UInt64} (houtput : seedOutput s = seedOutput t)
    (hrotation : rotation s = rotation t) : s.toNat >>> 27 = t.toNat >>> 27 := by
  have hmod : unrotated s % 2 ^ 32 = unrotated t % 2 ^ 32 := by
    have htoNat := congrArg UInt32.toNat houtput
    rw [toNat_seedOutput, toNat_seedOutput, hrotation] at htoNat
    have hlt (n : Nat) : n % 2 ^ 32 < 2 ^ 32 := Nat.mod_lt n (Nat.two_pow_pos 32)
    exact eq_of_rotated_eq (rotation_lt t).le (hlt _) (hlt _) htoNat
  have hunrotated : unrotated s = unrotated t := by
    rw [← Nat.div_add_mod (unrotated s) (2 ^ 32), ← Nat.div_add_mod (unrotated t) (2 ^ 32),
      unrotated_div, unrotated_div, hrotation, hmod]
  rw [unrotated_eq, unrotated_eq] at hunrotated
  exact eq_of_xor_shiftRight_eq (by decide) hunrotated

theorem eq_zero_of_multiple {x m : Int} (h : x = 2 ^ 64 * m) (hlow : -2 ^ 64 < x)
    (hhigh : x < 2 ^ 64) : m = 0 := by
  omega

/-- The difference of two states and that of the next two are not both small, unless they are zero.
Two combinations of them are multiples of `2 ^ 64`, and too small for any but zero. -/
theorem eq_zero_of_small_differences {d e k : Int} (hd : -2 ^ 27 < d ∧ d < 2 ^ 27)
    (he : -2 ^ 27 < e ∧ e < 2 ^ 27) (hstep : e = 6364136223846793005 * d - 2 ^ 64 * k) :
    d = 0 := by
  have hbound : -2 ^ 64 < 2316313811 * e - 5803484695 * d ∧
      2316313811 * e - 5803484695 * d < 2 ^ 64 := by
    clear hstep
    omega
  have hbound' : -2 ^ 64 < 2627121436 * e + 1381628436 * d ∧
      2627121436 * e + 1381628436 * d < 2 ^ 64 := by
    clear hstep
    omega
  have hfirst : 2316313811 * e - 5803484695 * d =
      2 ^ 64 * (799129460 * d - 2316313811 * k) := by
    rw [hstep]
    ring
  have hsecond : 2627121436 * e + 1381628436 * d =
      2 ^ 64 * (906358251 * d - 2627121436 * k) := by
    rw [hstep]
    ring
  have hzero := eq_zero_of_multiple hfirst hbound.1 hbound.2
  have hzero' := eq_zero_of_multiple hsecond hbound'.1 hbound'.2
  calc d = 2316313811 * (906358251 * d - 2627121436 * k) -
        2627121436 * (799129460 * d - 2316313811 * k) := by ring
    _ = 0 := by rw [hzero, hzero', Int.mul_zero, Int.mul_zero, Int.sub_zero]

theorem toNat_advanceSeed (state : UInt64) : ∃ k : Nat, (advanceSeed state).toNat + 2 ^ 64 * k =
    state.toNat * 6364136223846793005 + 11634580027462260723 := by
  simp only [advanceSeed, UInt64.toNat_add, UInt64.toNat_mul, Nat.mod_add_mod, UInt64.reduceToNat]
  exact ⟨_, Nat.mod_add_div ..⟩

/-- Upper bits of two states in a row tell the states. -/
theorem eq_of_upper_eq {s t : UInt64} (hfirst : s.toNat >>> 27 = t.toNat >>> 27)
    (hsecond : (advanceSeed s).toNat >>> 27 = (advanceSeed t).toNat >>> 27) : s = t := by
  obtain ⟨i, hs⟩ := toNat_advanceSeed s
  obtain ⟨j, ht⟩ := toNat_advanceSeed t
  rw [Nat.shiftRight_eq_div_pow, Nat.shiftRight_eq_div_pow] at hfirst hsecond
  have hstep : ((advanceSeed s).toNat : Int) - (advanceSeed t).toNat =
      6364136223846793005 * ((s.toNat : Int) - t.toNat) - 2 ^ 64 * ((i : Int) - j) := by omega
  have hzero := eq_zero_of_small_differences (by omega) (by omega) hstep
  apply UInt64.toNat_inj.1
  omega

/-! ## Generators from seeds -/

theorem toNat_seedWord (seed : UInt64) (i : Nat) :
    (seedWord seed i).toNat = 2 ^ 32 * (seedOutput (seedState seed (2 * i + 2))).toNat +
      (seedOutput (seedState seed (2 * i + 1))).toNat := by
  have hlow := (seedOutput (seedState seed (2 * i + 1))).toNat_lt
  have hhigh := (seedOutput (seedState seed (2 * i + 2))).toNat_lt
  have hshift : (32 : UInt64).toNat % 64 = 32 := rfl
  rw [Nat.two_pow_add_eq_or_of_lt hlow, Nat.or_comm, seedWord, UInt64.toNat_or,
    UInt64.toNat_shiftLeft, hshift, UInt32.toNat_toUInt64, UInt32.toNat_toUInt64, Nat.shiftLeft_eq,
    Nat.mod_eq_of_lt (by omega), Nat.mul_comm (seedOutput _).toNat]

theorem seedOutput_eq_of_seedWord_eq {s t : UInt64} {i : Nat} (h : seedWord s i = seedWord t i) :
    seedOutput (seedState s (2 * i + 1)) = seedOutput (seedState t (2 * i + 1)) ∧
      seedOutput (seedState s (2 * i + 2)) = seedOutput (seedState t (2 * i + 2)) := by
  have htoNat := congrArg UInt64.toNat h
  rw [toNat_seedWord, toNat_seedWord] at htoNat
  have hs := (seedOutput (seedState s (2 * i + 1))).toNat_lt
  have ht := (seedOutput (seedState t (2 * i + 1))).toNat_lt
  constructor
  · apply UInt32.toNat_inj.1
    omega
  · apply UInt32.toNat_inj.1
    omega

/-- A generator is the eight outputs of an expansion. -/
theorem seedOutput_eq_of_seeded_eq {s t : UInt64} (h : seeded s = seeded t) {n : Nat} (hn : n < 8) :
    seedOutput (seedState s (n + 1)) = seedOutput (seedState t (n + 1)) := by
  have hword : ∀ i < 4, seedWord s i = seedWord t i := by
    intro i hi
    match i, hi with
    | 0, _ => exact congrArg Generator.s0 h
    | 1, _ => exact congrArg Generator.s1 h
    | 2, _ => exact congrArg Generator.s2 h
    | 3, _ => exact congrArg Generator.s3 h
  obtain ⟨hlow, hhigh⟩ := seedOutput_eq_of_seedWord_eq (hword (n / 2) (by omega))
  rcases Nat.mod_two_eq_zero_or_one n with heven | hodd
  · rw [show 2 * (n / 2) + 1 = n + 1 by omega] at hlow
    exact hlow
  · rw [show 2 * (n / 2) + 2 = n + 1 by omega] at hhigh
    exact hhigh

/-- Different seeds of one generator are rotated differently in one of two steps in a row. -/
theorem eq_of_rotations_eq {s t : UInt64} (h : seeded s = seeded t) {n : Nat} (hn : n < 7)
    (hfirst : rotation (seedState s (n + 1)) = rotation (seedState t (n + 1)))
    (hsecond : rotation (seedState s (n + 2)) = rotation (seedState t (n + 2))) : s = t := by
  have hupper := upper_eq_of_seedOutput_eq (seedOutput_eq_of_seeded_eq h (by omega)) hfirst
  have hupper' := upper_eq_of_seedOutput_eq
    (seedOutput_eq_of_seeded_eq h (show n + 1 < 8 by omega)) hsecond
  exact eq_of_seedState_eq (n + 1) (eq_of_upper_eq hupper hupper')

/-- A generator comes from one seed at most for each pair of the first two rotations. -/
theorem card_le_of_seeded_eq {g : Generator} {seeds : Finset UInt64}
    (h : ∀ s ∈ seeds, seeded s = g) : seeds.card ≤ 1024 := by
  have hpairs : (Finset.range 32 ×ˢ Finset.range 32).card = 1024 := by
    rw [Finset.card_product, Finset.card_range]
  rw [← hpairs]
  apply Finset.card_le_card_of_injOn
    fun s => (rotation (seedState s 1), rotation (seedState s 2))
  · intro s _
    rw [Finset.mem_coe, Finset.mem_product, Finset.mem_range, Finset.mem_range]
    exact ⟨rotation_lt _, rotation_lt _⟩
  · intro s hs t ht hrotations
    obtain ⟨hfirst, hsecond⟩ := Prod.mk.inj hrotations
    exact eq_of_rotations_eq ((h s hs).trans (h t ht).symm) (n := 0) (by omega) hfirst hsecond

/-! ## The generator of zeros -/

/-- The upper bits of a state with this rotation whose output is zero. -/
def silentUpper (r : Nat) : Nat := r <<< 32 ^^^ r <<< 14 ^^^ r >>> 4

theorem upper_of_seedOutput_eq_zero {s : UInt64} (h : seedOutput s = 0) :
    s.toNat >>> 27 = silentUpper (rotation s) := by
  have hmod : unrotated s % 2 ^ 32 = 0 := by
    have htoNat := toNat_seedOutput s
    rw [h, UInt32.toNat_zero, eq_comm, Nat.add_eq_zero_iff, Nat.mul_eq_zero] at htoNat
    have hlow := htoNat.1.resolve_left (Nat.ne_of_gt (Nat.two_pow_pos _))
    rw [← Nat.div_add_mod (unrotated s % 2 ^ 32) (2 ^ rotation s), hlow, htoNat.2,
      Nat.mul_zero, Nat.add_zero]
  have hunrotated : unrotated s = rotation s <<< 32 := by
    rw [← Nat.div_add_mod (unrotated s) (2 ^ 32), unrotated_div, hmod, Nat.shiftLeft_eq,
      Nat.mul_comm, Nat.add_zero]
  have hsilent : ∀ r < 32, silentUpper r ^^^ silentUpper r >>> 18 = r <<< 32 := by decide
  apply eq_of_xor_shiftRight_eq (k := 18) (by decide)
  rw [hsilent _ (rotation_lt s), ← hunrotated, unrotated_eq]

/-- Whether a state with the upper bits `h` can come before one with the upper bits `g`, as far as
two combinations of the states tell, which the lower bits change little. -/
def MayPrecede (h g : Nat) : Prop :=
  (2316313811 * (11634580027462260723 - 2 ^ 27 * (g : Int)) + 5803484695 * 2 ^ 27 * (h + 1)) %
      2 ^ 64 < 8119798506 * 2 ^ 27 ∧
    (2627121436 * (11634580027462260723 - 2 ^ 27 * (g : Int)) - 1381628436 * 2 ^ 27 * h) %
      2 ^ 64 < 4008749872 * 2 ^ 27

instance (h g : Nat) : Decidable (MayPrecede h g) :=
  inferInstanceAs (Decidable (_ ∧ _))

theorem emod_lt_of_eq_add {x y m bound : Int} (h : x = y + 2 ^ 64 * m) (hpos : 0 ≤ y)
    (hlt : y < bound) (hbound : bound ≤ 2 ^ 64) : x % 2 ^ 64 < bound := by
  rw [h, Int.add_mul_emod_self_left, Int.emod_eq_of_lt hpos (hlt.trans_le hbound)]
  exact hlt

theorem mayPrecede_advanceSeed (s : UInt64) :
    MayPrecede (s.toNat >>> 27) ((advanceSeed s).toNat >>> 27) := by
  obtain ⟨k, hk⟩ := toNat_advanceSeed s
  have hs := Nat.div_add_mod s.toNat (2 ^ 27)
  have ht := Nat.div_add_mod (advanceSeed s).toNat (2 ^ 27)
  have hslt := Nat.mod_lt s.toNat (Nat.two_pow_pos 27)
  have htlt := Nat.mod_lt (advanceSeed s).toNat (Nat.two_pow_pos 27)
  rw [MayPrecede, Nat.shiftRight_eq_div_pow, Nat.shiftRight_eq_div_pow]
  generalize s.toNat / 2 ^ 27 = h, s.toNat % 2 ^ 27 = l at hs hslt
  generalize (advanceSeed s).toNat / 2 ^ 27 = g, (advanceSeed s).toNat % 2 ^ 27 = m at ht htlt
  rw [← hs, ← ht] at hk
  have hcast : ((2 ^ 27 * h + l) * 6364136223846793005 + 11634580027462260723 : Int) =
      2 ^ 27 * g + m + 2 ^ 64 * k := by exact_mod_cast hk.symm
  clear hk hs ht
  constructor
  · apply emod_lt_of_eq_add (y := 2316313811 * m + 5803484695 * (2 ^ 27 - l))
      (m := 2316313811 * k - 799129460 * (2 ^ 27 * h + l))
    · linear_combination 2316313811 * hcast
    · omega
    · omega
    · decide
  · apply emod_lt_of_eq_add (y := 2627121436 * m + 1381628436 * l)
      (m := 2627121436 * k - 906358251 * (2 ^ 27 * h + l))
    · linear_combination 2627121436 * hcast
    · omega
    · omega
    · decide

/-- An output of zero comes before another one with two pairs of rotations at most. -/
theorem rotations_of_silent {s : UInt64} (h : seedOutput s = 0)
    (hnext : seedOutput (advanceSeed s) = 0) :
    (rotation s = 6 ∧ rotation (advanceSeed s) = 27) ∨
      (rotation s = 28 ∧ rotation (advanceSeed s) = 23) := by
  have hpairs : ∀ p < 32, ∀ r < 32, MayPrecede (silentUpper p) (silentUpper r) →
      (p = 6 ∧ r = 27) ∨ (p = 28 ∧ r = 23) := by decide +kernel
  have hprecede := mayPrecede_advanceSeed s
  rw [upper_of_seedOutput_eq_zero h, upper_of_seedOutput_eq_zero hnext] at hprecede
  exact hpairs _ (rotation_lt _) _ (rotation_lt _) hprecede

/-- No seed gives the generator of zeros, as three outputs in a row are not all zero. -/
theorem seeded_ne_zero (seed : UInt64) : seeded seed ≠ ⟨0, 0, 0, 0⟩ := by
  intro h
  have hsilent {i : Nat} (hword : seedWord seed i = 0) :
      seedOutput (seedState seed (2 * i + 1)) = 0 ∧
        seedOutput (seedState seed (2 * i + 2)) = 0 := by
    have htoNat := toNat_seedWord seed i
    rw [hword, UInt64.toNat_zero] at htoNat
    constructor <;> apply UInt32.toNat_inj.1 <;> rw [UInt32.toNat_zero] <;> omega
  obtain ⟨hfirst, hsecond⟩ := hsilent (i := 0) (congrArg Generator.s0 h)
  obtain ⟨hthird, -⟩ := hsilent (i := 1) (congrArg Generator.s1 h)
  have hbefore := rotations_of_silent hfirst hsecond
  have hafter := rotations_of_silent hsecond hthird
  -- the second state is the later one of the one pair and the earlier one of the other
  change _ ∧ rotation (seedState seed 2) = _ ∨ _ ∧ rotation (seedState seed 2) = _ at hbefore
  change rotation (seedState seed 2) = _ ∧ _ ∨ rotation (seedState seed 2) = _ ∧ _ at hafter
  omega

/-! ## Workers of a run -/

/-- How far two workers of a run are apart when they start. -/
structure StartApart (base a b : UInt64) : Prop where
  seed : workerSeed base a ≠ workerSeed base b
  splitMix : splitMixSeeded (workerSeed base a) ≠ splitMixSeeded (workerSeed base b)
  state : ∀ n, seedState (workerSeed base a) n ≠ seedState (workerSeed base b) n
  rotations : forWorker base a = forWorker base b → ∀ n < 7,
    rotation (seedState (workerSeed base a) (n + 1)) ≠
        rotation (seedState (workerSeed base b) (n + 1)) ∨
      rotation (seedState (workerSeed base a) (n + 2)) ≠
        rotation (seedState (workerSeed base b) (n + 2))
  crowd : ∀ workers : Finset UInt64, (∀ w ∈ workers, forWorker base w = forWorker base a) →
    workers.card ≤ 1024

/-- Two workers of a run never have one seed, and few have one generator if any have. -/
theorem workers_startApart (base : UInt64) {a b : UInt64} (h : a ≠ b) : StartApart base a b := by
  have hseed : workerSeed base a ≠ workerSeed base b := mt eq_of_workerSeed_eq h
  refine ⟨hseed, mt eq_of_splitMixSeeded_eq hseed, fun n => mt (eq_of_seedState_eq n) hseed, ?_, ?_⟩
  · intro hstart n hn
    by_contra hboth
    rw [not_or, not_not, not_not] at hboth
    exact hseed (eq_of_rotations_eq hstart hn hboth.1 hboth.2)
  · intro workers hworkers
    have hinjective : Set.InjOn (workerSeed base) workers := fun v _ w _ => eq_of_workerSeed_eq
    rw [← Finset.card_image_of_injOn hinjective]
    apply card_le_of_seeded_eq (g := forWorker base a)
    intro s hs
    obtain ⟨w, hw, rfl⟩ := Finset.mem_image.1 hs
    exact hworkers w hw

/-- Seeds are not expanded by SplitMix64. -/
example : forWorker 0 0 ≠ splitMixSeeded (workerSeed 0 0) := by decide

end Generator

end CacheBench
