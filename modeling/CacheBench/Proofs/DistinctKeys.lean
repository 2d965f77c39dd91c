import CacheBench.Proofs.ValidatedWork
import Mathlib.Data.Finset.Card
import Mathlib.Order.Bounds.Basic

/-!
# Drawing distinct keys

Keys are drawn until there are enough, however often they repeat. `DrawsKeys` is this loop in an
environment, with no bound on the draws. `Work.drawKeys` is bounded, and returns what the loop comes
to from some bound on. Over a stream of draws the loop ends after the shortest prefix that holds as
many distinct keys as are wanted, with the keys of this prefix.
-/

namespace CacheBench

open Std (TreeMap)

namespace Environment

/-- Keys below `range` are drawn into a batch until there are `count`. -/
inductive DrawsKeys {σ : Type} (env : Environment σ) (count : Nat) (range : UInt64) :
    Batch → σ → Batch → σ → Prop
  | enough {b : Batch} {s : σ} : ¬ b.size < count → DrawsKeys env count range b s b s
  | more {b b' : Batch} {s s₁ s' : σ} {k : UInt64} : b.size < count →
      env.draw (.between 0 range) s = (k, s₁) →
      DrawsKeys env count range (b.insert k (.int k.toInt64)) s₁ b' s' →
      DrawsKeys env count range b s b' s'

theorem DrawsKeys.unique {σ : Type} {env : Environment σ} {count : Nat} {range : UInt64}
    {b b₁ b₂ : Batch} {s s₁ s₂ : σ} (h₁ : env.DrawsKeys count range b s b₁ s₁)
    (h₂ : env.DrawsKeys count range b s b₂ s₂) : b₁ = b₂ ∧ s₁ = s₂ := by
  induction h₁ with
  | enough henough =>
      cases h₂ with
      | enough _ => exact ⟨rfl, rfl⟩
      | more hfew _ _ => exact absurd hfew henough
  | more hfew hdraw _ ih =>
      cases h₂ with
      | enough henough => exact absurd hfew henough
      | more _ hdraw' hrest =>
          obtain ⟨rfl, rfl⟩ := Prod.mk.inj (hdraw.symm.trans hdraw')
          exact ih hrest

/-- Words are drawn from a stream, and the state is how many were. -/
def ofStream (draws : Nat → UInt64) : Environment Nat where
  answer _ n := (.error (.panic none), n)
  draw
    | .between _ _, n => (draws n, n + 1)
    | .unit, n => (.zero, n)
    | .coin, n => (false, n)

end Environment

namespace Work

section

variable {σ : Type} {env : Environment σ} {count : Nat} {range : UInt64} {b b' : Batch} {s s' : σ}

theorem run_drawKeys_of_enough (h : ¬ b.size < count) (fuel : Nat) :
    (drawKeys count range fuel b).run.run env s = (.ok b, s) := by
  cases fuel with
  | zero => rw [drawKeys, if_neg h]; rfl
  | succ fuel => rw [drawKeys, if_neg h]; rfl

theorem run_drawKeys_zero (h : b.size < count) :
    (drawKeys count range 0 b).run.run env s = (.error (.panic none), s) := by
  rw [drawKeys, if_pos h]
  rfl

theorem run_drawKeys_succ (hrange : 0 < range) (h : b.size < count) (fuel : Nat) {k : UInt64}
    (hdraw : env.draw (.between 0 range) s = (k, s')) :
    (drawKeys count range (fuel + 1) b).run.run env s =
      (drawKeys count range fuel (b.insert k (.int k.toInt64))).run.run env s' := by
  rw [drawKeys, if_pos h, between, if_pos hrange]
  change (Program.draw _ _).run env s = _
  rw [Program.run, hdraw]
  rfl

theorem drawsKeys_of_enough (hsize : ¬ b.size < count) {bound : Nat}
    (h : (drawKeys count range bound b).run.run env s = (.ok b', s')) :
    env.DrawsKeys count range b s b' s' := by
  rw [run_drawKeys_of_enough hsize] at h
  cases h
  exact .enough hsize

theorem drawsKeys_of_run (hrange : 0 < range) {bound : Nat}
    (h : (drawKeys count range bound b).run.run env s = (.ok b', s')) :
    env.DrawsKeys count range b s b' s' := by
  induction bound generalizing b s with
  | zero =>
      by_cases hsize : b.size < count
      · rw [run_drawKeys_zero hsize] at h
        cases h
      · exact drawsKeys_of_enough hsize h
  | succ bound ih =>
      by_cases hsize : b.size < count
      · rcases hdraw : env.draw (.between 0 range) s with ⟨k, s₁⟩
        rw [run_drawKeys_succ hrange hsize bound hdraw] at h
        exact .more hsize hdraw (ih h)
      · exact drawsKeys_of_enough hsize h

/-- The loop comes to what is returned under every bound that is high enough. -/
theorem drawsKeys_iff (hrange : 0 < range) :
    env.DrawsKeys count range b s b' s' ↔
      ∃ bound, ∀ fuel, bound ≤ fuel →
        (drawKeys count range fuel b).run.run env s = (.ok b', s') := by
  constructor
  · intro h
    induction h with
    | enough hsize => exact ⟨0, fun fuel _ => run_drawKeys_of_enough hsize fuel⟩
    | more hsize hdraw _ ih =>
        obtain ⟨bound, hbound⟩ := ih
        refine ⟨bound + 1, fun fuel hfuel => ?_⟩
        obtain ⟨fuel, rfl⟩ := Nat.exists_eq_succ_of_ne_zero (show fuel ≠ 0 by omega)
        rw [run_drawKeys_succ hrange hsize fuel hdraw]
        exact hbound fuel (by omega)
  · rintro ⟨bound, hbound⟩
    exact drawsKeys_of_run hrange (hbound bound (Nat.le_refl bound))

end

/-! ## Prefixes of a stream -/

section

variable (draws : Nat → UInt64)

def seen (n : Nat) : Finset UInt64 := (Finset.range n).image draws

def collected : Nat → Batch
  | 0 => ∅
  | n + 1 => (collected n).insert (draws n) (.int (draws n).toInt64)

theorem seen_succ (n : Nat) : seen draws (n + 1) = insert (draws n) (seen draws n) := by
  rw [seen, Finset.range_add_one, Finset.image_insert, seen]

theorem mem_collected_iff (n : Nat) (k : Key) : k ∈ collected draws n ↔ k ∈ seen draws n := by
  induction n with
  | zero => simp [collected, seen]
  | succ n ih =>
      rw [collected, TreeMap.mem_insert, Std.LawfulEqCmp.compare_eq_iff_eq, seen_succ,
        Finset.mem_insert, ih, eq_comm]

theorem size_collected (n : Nat) : (collected draws n).size = (seen draws n).card := by
  induction n with
  | zero => rfl
  | succ n ih =>
      have hcontains := mem_collected_iff draws n (draws n)
      rw [TreeMap.mem_iff_contains] at hcontains
      rw [collected, TreeMap.size_insert, seen_succ]
      by_cases hmem : draws n ∈ seen draws n
      · rw [if_pos (hcontains.2 hmem), Finset.insert_eq_of_mem hmem, ih]
      · rw [if_neg (mt hcontains.1 hmem), Finset.card_insert_of_notMem hmem, ih]

theorem card_seen_succ_le (n : Nat) : (seen draws (n + 1)).card ≤ (seen draws n).card + 1 := by
  rw [seen_succ]
  exact Finset.card_insert_le ..

variable {draws} {range : UInt64}

theorem keysBelow_collected (hdraws : ∀ i, draws i < range) (n : Nat) :
    KeysBelow range (collected draws n) := by
  induction n with
  | zero =>
      intro k v hk
      rw [collected, TreeMap.getElem?_emptyc] at hk
      cases hk
  | succ n ih => exact ih.insert (hdraws n)

/-- The shortest prefix that holds `count` distinct keys holds no more. -/
theorem card_seen_of_isLeast {count n : Nat} (h : IsLeast {n | count ≤ (seen draws n).card} n) :
    (seen draws n).card = count := by
  apply Nat.le_antisymm ?_ h.1
  cases n with
  | zero => exact Nat.zero_le count
  | succ n =>
      have hbefore : ¬ count ≤ (seen draws n).card := fun hle => by
        have hn : n + 1 ≤ n := h.2 hle
        omega
      have hle := card_seen_succ_le draws n
      omega

/-- While fewer keys have been seen than are wanted, the draws of the stream are collected. -/
theorem run_drawKeys_collected (hrange : 0 < range) {count n : Nat}
    (h : IsLeast {n | count ≤ (seen draws n).card} n) {i fuel : Nat} (hi : i ≤ n)
    (hfuel : n ≤ i + fuel) :
    (drawKeys count range fuel (collected draws i)).run.run (.ofStream draws) i =
      (.ok (collected draws n), n) := by
  have henough : ¬ (collected draws n).size < count := by
    rw [size_collected]
    exact Nat.not_lt.2 h.1
  induction fuel generalizing i with
  | zero =>
      obtain rfl : i = n := by omega
      exact run_drawKeys_of_enough henough 0
  | succ fuel ih =>
      rcases Nat.eq_or_lt_of_le hi with rfl | hlt
      · exact run_drawKeys_of_enough henough _
      · have hfew : (collected draws i).size < count := by
          rw [size_collected]
          by_contra hle
          have hni : n ≤ i := h.2 (Nat.not_lt.1 hle)
          omega
        rw [run_drawKeys_succ hrange hfew fuel rfl]
        exact ih hlt (by omega)

end

/-- The draws for `count` keys end after the first `n` of a stream, with the batch `b`: this is the
shortest prefix with `count` distinct keys, and these are its keys. -/
structure EndsWith (draws : Nat → UInt64) (count : Nat) (range : UInt64) (n : Nat) (b : Batch) :
    Prop where
  least : IsLeast {n | count ≤ (seen draws n).card} n
  loop : ∀ b' n', (Environment.ofStream draws).DrawsKeys count range ∅ 0 b' n' ↔ b' = b ∧ n' = n
  bounded : ∀ fuel, n ≤ fuel →
    (drawKeys count range fuel ∅).run.run (.ofStream draws) 0 = (.ok b, n)
  size : b.size = count
  mem : ∀ k, k ∈ b ↔ k ∈ seen draws n
  value : ∀ k v, b[k]? = some v → k < range ∧ ∃ i : Int64, v = .int i ∧ i.toInt = k.toNat

/-- Distinct keys are drawn from a stream up to the shortest prefix that holds enough of them, and
nothing is drawn where none is wanted. -/
theorem distinctKeys_endsWith {range : UInt64} (hrange : range.toNat < 2 ^ 63) :
    (∀ {σ : Type} (env : Environment σ) (s : σ),
      (distinctKeys 0 range).run.run env s = (.ok ∅, s)) ∧
    ∀ (count : Nat) (draws : Nat → UInt64), (∀ i, draws i < range) →
      (∃ n, count ≤ (seen draws n).card) → ∃ n b, EndsWith draws count range n b ∧
        (n ≤ enoughDraws →
          (distinctKeys count range).run.run (.ofStream draws) 0 = (.ok b, n)) := by
  refine ⟨fun env s => run_drawKeys_of_enough (Nat.not_lt_zero _) _, ?_⟩
  intro count draws hdraws hsome
  have hpos : 0 < range := UInt64.lt_of_le_of_lt UInt64.zero_le (hdraws 0)
  have hleast : IsLeast {n | count ≤ (seen draws n).card} (Nat.find hsome) :=
    ⟨Nat.find_spec hsome, fun m hm => Nat.find_min' hsome hm⟩
  generalize Nat.find hsome = n at hleast
  have hbounded (fuel : Nat) (hfuel : n ≤ fuel) :
      (drawKeys count range fuel ∅).run.run (.ofStream draws) 0 = (.ok (collected draws n), n) :=
    run_drawKeys_collected hpos hleast (Nat.zero_le n) (by omega)
  have hends := (drawsKeys_iff hpos).2 ⟨n, hbounded⟩
  have hloop (b' : Batch) (n' : Nat) :
      (Environment.ofStream draws).DrawsKeys count range ∅ 0 b' n' ↔
        b' = collected draws n ∧ n' = n := by
    constructor
    · intro h
      exact h.unique hends
    · rintro ⟨rfl, rfl⟩
      exact hends
  refine ⟨n, collected draws n, ⟨hleast, hloop, hbounded, ?_, mem_collected_iff draws n, ?_⟩,
    hbounded enoughDraws⟩
  · rw [size_collected, card_seen_of_isLeast hleast]
  · intro k v hk
    obtain ⟨hlt, rfl⟩ := keysBelow_collected hdraws n k v hk
    refine ⟨hlt, k.toInt64, rfl, toInt_toInt64 ?_⟩
    exact (UInt64.lt_iff_toNat_lt.1 hlt).trans hrange

/-- A stream that repeats itself before it comes to a third key. -/
def stutter (i : Nat) : UInt64 := .ofNat ([5, 5, 3, 5, 3].getD i 7)

theorem stutter_lt (i : Nat) : stutter i < 8 := by
  have hcases : ∀ i < 5, stutter i < 8 := by decide
  by_cases hi : i < 5
  · exact hcases i hi
  · have hbeyond : stutter i = 7 := by
      rw [stutter, List.getD_eq_getElem?_getD, List.getElem?_eq_none (Nat.not_lt.1 hi)]
      rfl
    rw [hbeyond]
    decide

theorem distinctKeys_endsWith_stutter : (8 : UInt64).toNat < 2 ^ 63 ∧ (∀ i, stutter i < 8) ∧
    ∃ b : Batch, (distinctKeys 3 8).run.run (.ofStream stutter) 0 = (.ok b, 6) ∧
      b.size = 3 ∧ 5 ∈ b ∧ 3 ∈ b ∧ 7 ∈ b := by
  have hrange : (8 : UInt64).toNat < 2 ^ 63 := by decide
  have hsix : 3 ≤ (seen stutter 6).card := by decide
  obtain ⟨n, b, h, hrun⟩ := (distinctKeys_endsWith hrange).2 3 stutter stutter_lt ⟨6, hsix⟩
  have hn : n = 6 := by
    have hle : n ≤ 6 := h.least.2 hsix
    have hfew : ∀ m < 6, (seen stutter m).card < 3 := by decide
    by_contra hne
    have hlt := hfew n (by omega)
    have hle := h.least.1
    rw [Set.mem_ofPred_eq] at hle
    omega
  subst hn
  refine ⟨hrange, stutter_lt, b, hrun ?_, h.size, ?_⟩
  · rw [enoughDraws]
    decide
  · simp only [h.mem]
    decide

end Work

end CacheBench
