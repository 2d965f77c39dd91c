import CacheBench.Proofs.AppliedBatch
import Mathlib.Data.List.Nodup

/-!
# The salary index

A key is in the bucket of a salary exactly when the value at the key is a record with that salary,
bit for bit. A range of the index therefore lists each key once, and lists the keys of the records
whose salary lies in the range under the total order. A scan compares numeric values instead. The
two orders part only at the zeros, and so do the two ways to answer a query.
-/

namespace CacheBench

open Std (TreeMap TreeSet)

namespace Binary64

variable {x y : Binary64}

theorem compare_isLE_iff : (compare x y).isLE ↔ x.totalRank ≤ y.totalRank := by
  rw [compare_def]
  exact Int.isLE_compare

theorem compare_isGE_iff : (compare x y).isGE ↔ y.totalRank ≤ x.totalRank := by
  rw [compare_def]
  exact Int.isGE_compare

theorem compare_isLT_iff : (compare x y).isLT ↔ x.totalRank < y.totalRank := by
  rw [compare_def, Ordering.isLT_iff_eq_lt]
  exact Int.compare_eq_lt

theorem totalRank_eq_rank (x : Binary64) :
    x.totalRank = if x.isNegative then x.rank - 1 else x.rank := by
  unfold totalRank rank
  split <;> rfl

theorem rank_nonpos (h : x.isNegative) : x.rank ≤ 0 := by
  rw [rank, if_pos h]
  omega

theorem rank_nonneg (h : ¬ x.isNegative) : 0 ≤ x.rank := by
  rw [rank, if_neg h]
  omega

theorem totalRank_lt_of_lt (h : x.lt y) : x.totalRank < y.totalRank := by
  have hrank : x.rank < y.rank := by
    simp only [lt, Bool.and_eq_true, decide_eq_true_eq] at h
    exact h.2
  rw [totalRank_eq_rank x, totalRank_eq_rank y]
  by_cases hx : x.isNegative
  · rw [if_pos hx]
    split <;> omega
  · have hpos := rank_nonneg hx
    have hy : ¬ y.isNegative := fun hy => by
      have hneg := rank_nonpos hy
      omega
    rwa [if_neg hx, if_neg hy]

theorem neg_zero_lt (z : Binary64) : (-zero).lt z = zero.lt z := rfl

/-- Zero is numerically at most negative zero. No other pair is in numeric order alone. -/
theorem totalRank_le_of_le (h : x.le y) (hz : ¬ (x = zero ∧ y = -zero)) :
    x.totalRank ≤ y.totalRank := by
  have hrank : x.rank ≤ y.rank := by
    simp only [le, Bool.and_eq_true, decide_eq_true_eq] at h
    exact h.2
  have hxr := totalRank_eq_rank x
  have hyr := totalRank_eq_rank y
  by_cases hx : x.isNegative
  · rw [if_pos hx] at hxr
    split at hyr <;> omega
  · rw [if_neg hx] at hxr
    by_cases hy : y.isNegative
    · -- both ranks are zero, so these are the two zeros
      rw [if_pos hy] at hyr
      have hpos := rank_nonneg hx
      have hneg := rank_nonpos hy
      have hx0 : x.totalRank = zero.totalRank := by
        change x.totalRank = 0
        omega
      have hy0 : y.totalRank = (-zero).totalRank := by
        change y.totalRank = -1
        omega
      exact absurd ⟨totalRank_injective hx0, totalRank_injective hy0⟩ hz
    · rw [if_neg hy] at hyr
      omega

end Binary64

namespace SalaryIndex

variable (index : SalaryIndex) (salary s min max : Binary64) (k a : Key)

theorem mem_bucket_remove :
    a ∈ (index.remove salary k).bucket s ↔ a ∈ index.bucket s ∧ ¬ (s = salary ∧ a = k) := by
  have herase : a ∈ (index.bucket salary).erase k ↔ a ∈ index.bucket salary ∧ ¬ a = k := by
    simp only [TreeSet.mem_erase, ne_eq, Std.LawfulEqCmp.compare_eq_iff_eq]
    exact ⟨fun h => ⟨h.2, fun he => h.1 he.symm⟩, fun h => ⟨fun he => h.2 he.symm, h.1⟩⟩
  by_cases hs : s = salary
  · subst s
    by_cases he : ((index.bucket salary).erase k).isEmpty
    · have hnone : a ∉ (index.bucket salary).erase k := TreeSet.not_mem_of_isEmpty he
      have hbucket : (index.remove salary k).bucket salary = ∅ := by
        unfold remove
        dsimp only
        rw [if_pos he]
        simp [bucket]
      rw [hbucket]
      simp only [TreeSet.not_mem_emptyc, true_and, false_iff]
      exact fun h => hnone (herase.2 h)
    · have hbucket : (index.remove salary k).bucket salary = (index.bucket salary).erase k := by
        unfold remove
        dsimp only
        rw [if_neg he]
        simp [bucket]
      rw [hbucket, herase]
      simp
  · have hs' : ¬ salary = s := fun he => hs he.symm
    have hbucket : (index.remove salary k).bucket s = index.bucket s := by
      unfold remove
      dsimp only
      split
      · simp [bucket, TreeMap.getD_erase, hs']
      · simp [bucket, TreeMap.getD_insert, hs']
    rw [hbucket]
    simp [hs]

theorem mem_bucket_add :
    a ∈ (index.add salary k).bucket s ↔ (s = salary ∧ a = k) ∨ a ∈ index.bucket s := by
  by_cases hs : s = salary
  · subst s
    have hbucket : (index.add salary k).bucket salary = (index.bucket salary).insert k := by
      simp [add, bucket]
    rw [hbucket, TreeSet.mem_insert, Std.LawfulEqCmp.compare_eq_iff_eq]
    simp [eq_comm]
  · have hs' : ¬ salary = s := fun he => hs he.symm
    have hbucket : (index.add salary k).bucket s = index.bucket s := by
      simp [add, bucket, TreeMap.getD_insert, hs']
    rw [hbucket]
    simp [hs]

theorem getElem?_of_mem_bucket {index : SalaryIndex} {s : Binary64} {a : Key}
    (h : a ∈ index.bucket s) : index[s]? = some (index.bucket s) := by
  unfold bucket at h ⊢
  rw [TreeMap.getD_eq_getD_getElem?] at h ⊢
  cases hs : index[s]? with
  | none =>
      rw [hs] at h
      simp at h
  | some keys => rfl

theorem bucket_of_mem_toList {keys : TreeSet Key compare} (h : (s, keys) ∈ index.toList) :
    index.bucket s = keys := by
  rw [TreeMap.mem_toList_iff_getElem?_eq_some] at h
  rw [bucket, TreeMap.getD_eq_getD_getElem?, h]
  rfl

theorem mem_range_iff :
    a ∈ index.range min max ↔
      ∃ s, (compare min s).isLE ∧ (compare s max).isLT ∧ a ∈ index.bucket s := by
  simp only [range, List.mem_flatMap, List.mem_filter, Bool.and_eq_true, Prod.exists,
    TreeSet.mem_toList]
  constructor
  · rintro ⟨s, keys, ⟨hs, hmin, hmax⟩, ha⟩
    exact ⟨s, hmin, hmax, (index.bucket_of_mem_toList s hs).symm ▸ ha⟩
  · rintro ⟨s, hmin, hmax, ha⟩
    have hs : (s, index.bucket s) ∈ index.toList :=
      TreeMap.mem_toList_iff_getElem?_eq_some.2 (getElem?_of_mem_bucket ha)
    exact ⟨s, index.bucket s, ⟨hs, hmin, hmax⟩, ha⟩

theorem range_eq_nil (h : (compare min max).isGE) : index.range min max = [] := by
  rw [List.eq_nil_iff_forall_not_mem]
  intro a ha
  obtain ⟨s, hmin, hmax, -⟩ := (index.mem_range_iff min max a).1 ha
  rw [Binary64.compare_isLE_iff] at hmin
  rw [Binary64.compare_isLT_iff] at hmax
  rw [Binary64.compare_isGE_iff] at h
  omega

end SalaryIndex

namespace Entries

variable (e : Entries) (k a : Key) (s : Binary64)

/-- The index has each key under the salary of its record and nowhere else. -/
def IndexMatches : Prop := ∀ k s, k ∈ e.index.bucket s ↔ e.salary? k = some s

theorem indexMatches_empty : ({} : Entries).IndexMatches := by
  intro k s
  simp [SalaryIndex.bucket, salary?, value?]

theorem mem_bucket_moved (index : SalaryIndex) (old new : Option Binary64) :
    a ∈ (moved index k old new).bucket s ↔
      (a = k ∧ new = some s) ∨ (a ∈ index.bucket s ∧ ¬ (a = k ∧ old = some s)) := by
  cases old with
  | none =>
      cases new with
      | none => simp [moved]
      | some salary =>
          simp only [moved, SalaryIndex.mem_bucket_add, Option.some.injEq]
          grind
  | some salary' =>
      cases new with
      | none =>
          simp only [moved, SalaryIndex.mem_bucket_remove, Option.some.injEq]
          grind
      | some salary =>
          simp only [moved, SalaryIndex.mem_bucket_add, SalaryIndex.mem_bucket_remove,
            Option.some.injEq]
          grind

theorem salary?_put (indexed : Bool) (version : Version) (v : Value) :
    (e.put indexed version k v).salary? a = if k = a then v.salary? else e.salary? a := by
  rw [salary?, value?, latest_put]
  split
  · rfl
  · rfl

theorem IndexMatches.put {e : Entries} (h : e.IndexMatches) (version : Version) (k : Key)
    (v : Value) : (e.put true version k v).IndexMatches := by
  intro a s
  have hindex : (e.put true version k v).index = moved e.index k (e.salary? k) v.salary? := rfl
  rw [hindex, mem_bucket_moved, salary?_put, h a s]
  by_cases ha : k = a
  · subst a
    simp
  · have ha' : ¬ a = k := fun he => ha he.symm
    simp [ha, ha']

theorem mem_range_iff_of_matches (h : e.IndexMatches) (min max : Binary64) :
    a ∈ e.index.range min max ↔
      ∃ s, e.salary? a = some s ∧ (compare min s).isLE ∧ (compare s max).isLT := by
  rw [SalaryIndex.mem_range_iff]
  constructor
  · rintro ⟨s, hmin, hmax, ha⟩
    exact ⟨s, (h a s).1 ha, hmin, hmax⟩
  · rintro ⟨s, ha, hmin, hmax⟩
    exact ⟨s, hmin, hmax, (h a s).2 ha⟩

/-- A range lists a key once: within a bucket a key is listed once, and it is in one bucket. -/
theorem nodup_range (h : e.IndexMatches) (min max : Binary64) :
    (e.index.range min max).Nodup := by
  unfold SalaryIndex.range
  rw [List.nodup_flatMap]
  constructor
  · rintro ⟨s, keys⟩ _
    exact keys.distinct_toList.imp fun hne heq => hne (Std.LawfulEqCmp.compare_eq_iff_eq.2 heq)
  · refine List.Pairwise.imp_of_mem ?_ (e.index.distinct_keys_toList.filter _)
    rintro ⟨s, keys⟩ ⟨s', keys'⟩ hs hs' hne a ha ha'
    have hmem : a ∈ e.index.bucket s := by
      rw [e.index.bucket_of_mem_toList s (List.mem_filter.1 hs).1]
      exact TreeSet.mem_toList.1 ha
    have hmem' : a ∈ e.index.bucket s' := by
      rw [e.index.bucket_of_mem_toList s' (List.mem_filter.1 hs').1]
      exact TreeSet.mem_toList.1 ha'
    have hsalary : some s = some s' := ((h a s).1 hmem).symm.trans ((h a s').1 hmem')
    exact hne (Std.LawfulEqCmp.compare_eq_iff_eq.2 (Option.some.inj hsalary))

/-! ## Queries by index and by scan -/

def matching? (p : Predicate) : Option Record := (e.record? k).filter p.holds

theorem salary?_eq_map_record? : e.salary? k = (e.record? k).map Record.salary := by
  rw [salary?, record?]
  cases e.value? k <;> rfl

theorem salary?_eq_some_iff :
    e.salary? k = some s ↔ ∃ r, e.value? k = some (.record r) ∧ r.salary = s := by
  rw [salary?]
  cases e.value? k with
  | none => simp
  | some v => cases v <;> simp [Value.salary?, Value.record?]

theorem matching?_eq_some_iff {p : Predicate} {r : Record} :
    e.matching? k p = some r ↔ e.record? k = some r ∧ p.holds r := by
  rw [matching?, Option.filter_eq_some_iff]

theorem filter_filterMap_record? (keys : List Key) (p : Predicate) :
    (keys.filterMap e.record?).filter p.holds = keys.filterMap (e.matching? · p) := by
  rw [List.filter_filterMap]
  rfl

theorem mem_keys_of_matching? {p : Predicate} {r : Record} (h : e.matching? k p = some r) :
    k ∈ e.latest.keys := by
  rw [TreeMap.mem_keys, TreeMap.mem_iff_isSome_getElem?]
  have hr : e.record? k = some r := ((e.matching?_eq_some_iff k).1 h).1
  cases hk : e.latest[k]? with
  | none => simp [record?, value?, hk] at hr
  | some v => rfl

theorem scanQuery_eq (p : Predicate) :
    e.scanQuery p =
      (e.latest.keys.filterMap (e.matching? · p)).mergeSort fun r r' => r.id ≤ r'.id := by
  have hrecords : (e.latest.toList.filterMap fun x => x.2.value.record?) =
      e.latest.keys.filterMap e.record? := by
    rw [← TreeMap.map_fst_toList_eq_keys, List.filterMap_map]
    apply List.filterMap_congr
    rintro ⟨k, v⟩ hk
    have hk : e.latest[k]? = some v := TreeMap.mem_toList_iff_getElem?_eq_some.1 hk
    simp [record?, value?, hk]
  rw [← filter_filterMap_record?, ← hrecords]
  rfl

theorem scanQuery_perm (p : Predicate) :
    (e.scanQuery p).Perm (e.latest.keys.filterMap (e.matching? · p)) := by
  rw [scanQuery_eq]
  exact List.mergeSort_perm _ _

/-- An inverted interval has an empty range, with or without the check before it. -/
theorem indexQuery_eq (p : Predicate) :
    e.indexQuery p = (e.index.range p.min p.max).filterMap (e.matching? · p) := by
  rw [← filter_filterMap_record?, indexQuery]
  split
  · rename_i hge
    rw [SalaryIndex.range_eq_nil e.index p.min p.max hge]
    rfl
  · rfl

end Entries

/-- Lists without repetitions that agree on the keys with an image have the same images. -/
theorem filterMap_perm_of_agree {f : Key → Option Record} {l l' : List Key} (hl : l.Nodup)
    (hl' : l'.Nodup) (h : ∀ k r, f k = some r → (k ∈ l ↔ k ∈ l')) :
    (l.filterMap f).Perm (l'.filterMap f) := by
  have hsome (l : List Key) : l.filterMap f = (l.filter fun k => (f k).isSome).filterMap f := by
    rw [List.filterMap_filter]
    apply List.filterMap_congr
    intro k _
    cases f k <;> rfl
  rw [hsome l, hsome l']
  apply List.Perm.filterMap
  rw [List.perm_ext_iff_of_nodup (hl.filter _) (hl'.filter _)]
  intro k
  simp only [List.mem_filter, Option.isSome_iff_exists]
  constructor
  · rintro ⟨hk, r, hr⟩
    exact ⟨(h k r hr).1 hk, r, hr⟩
  · rintro ⟨hk, r, hr⟩
    exact ⟨(h k r hr).2 hk, r, hr⟩

namespace Entries

variable {e : Entries}

/-- The two ways to answer a salary query return the same records, except that the index leaves
out the records at negative zero when the interval begins at zero. -/
theorem indexQuery_perm_scanQuery_iff (h : e.IndexMatches) (min max : Binary64) :
    (e.indexQuery (.salary min max)).Perm (e.scanQuery (.salary min max)) ↔
      ¬ (min = .zero ∧ Binary64.zero.lt max ∧ ∃ k, e.salary? k = some (-.zero)) := by
  have hscan := e.scanQuery_perm (.salary min max)
  rw [indexQuery_eq]
  constructor
  · rintro hperm ⟨rfl, hmax, k, hk⟩
    obtain ⟨r, hr, hsalary⟩ := Option.map_eq_some_iff.1 (e.salary?_eq_map_record? k ▸ hk)
    have hholds : (Predicate.salary .zero max).holds r := by
      simp only [Predicate.holds, Predicate.salary, Field.value, hsalary, Binary64.neg_zero_lt,
        hmax, Bool.and_true]
      rfl
    have hmatching := (e.matching?_eq_some_iff k).2 ⟨hr, hholds⟩
    have hmem : r ∈ e.scanQuery (.salary .zero max) :=
      hscan.mem_iff.2 (List.mem_filterMap.2 ⟨k, e.mem_keys_of_matching? k hmatching, hmatching⟩)
    obtain ⟨k', hk', hr'⟩ := List.mem_filterMap.1 (hperm.mem_iff.2 hmem)
    obtain ⟨s, hs, hmin, -⟩ := (e.mem_range_iff_of_matches k' h _ _).1 hk'
    have hs' : e.salary? k' = some (-.zero) := by
      rw [e.salary?_eq_map_record?, ((e.matching?_eq_some_iff k').1 hr').1, Option.map_some,
        hsalary]
    rw [hs] at hs'
    cases hs'
    have hmin : (compare Binary64.zero (-.zero)).isLE := hmin
    exact absurd hmin (by decide)
  · intro hzero
    refine (filterMap_perm_of_agree (e.nodup_range h _ _) e.latest.nodup_keys ?_).trans hscan.symm
    intro k r hk
    obtain ⟨hr, hholds⟩ := (e.matching?_eq_some_iff k).1 hk
    simp only [Predicate.holds, Predicate.salary, Field.value, Bool.and_eq_true] at hholds
    have hsalary : e.salary? k = some r.salary := by
      rw [e.salary?_eq_map_record?, hr, Option.map_some]
    have hmin : (compare min r.salary).isLE := by
      refine Binary64.compare_isLE_iff.2 (Binary64.totalRank_le_of_le hholds.1 ?_)
      rintro ⟨rfl, hr0⟩
      exact hzero ⟨rfl, by rw [← Binary64.neg_zero_lt, ← hr0]; exact hholds.2, k, hr0 ▸ hsalary⟩
    have hmax : (compare r.salary max).isLT :=
      Binary64.compare_isLT_iff.2 (Binary64.totalRank_lt_of_lt hholds.2)
    exact ⟨fun _ => e.mem_keys_of_matching? k hk,
      fun _ => (e.mem_range_iff_of_matches k h _ _).2 ⟨r.salary, hsalary, hmin, hmax⟩⟩

end Entries

end CacheBench
