import CacheBench.Proofs.SalaryBuckets

/-!
# What a query answers

A query meets some keys in some order, finds those with a matching record, and returns the records.
By the index it meets the keys of an interval of salaries in the total order, salary by salary and
within one salary key by key. By a scan it meets every key, in an order that does not matter, and
sorts what it finds by record id. A search tree has no range from a bound down to a smaller one, and
is never asked for one.
-/

namespace CacheBench

open Std (TreeMap TreeSet)

namespace SalaryIndex

/-- A range as a search tree gives it: there is none if the end is below the beginning. -/
def range? (index : SalaryIndex) (min max : Binary64) : Option (List Key) :=
  if (compare min max).isGT then none else some (index.range min max)

end SalaryIndex

def BySalary (x y : Key × Record) : Prop :=
  compare x.2.salary y.2.salary = .lt ∨ (x.2.salary = y.2.salary ∧ compare x.1 y.1 = .lt)

def ByRecordId (x y : Key × Record) : Prop := x.2.id ≤ y.2.id

namespace Entries

variable (e : Entries) (keys : List Key) (p : Predicate)

/-- The answer to a query, unless it asks the index for a range that there is not. -/
def query? (indexed : Bool) : Option (List Record) :=
  if indexed && p.field = .salary then
    if (compare p.min p.max).isGE then some []
    else (e.index.range? p.min p.max).map fun keys => (keys.filterMap e.record?).filter p.holds
  else some (e.scanQuery p)

theorem query?_eq_some (indexed : Bool) : e.query? p indexed = some (e.query indexed p) := by
  unfold query? query
  split
  · unfold indexQuery
    cases h : compare p.min p.max <;> simp [SalaryIndex.range?, h]
  · rfl

def found : List (Key × Record) := keys.filterMap fun k => (e.matching? k p).map (k, ·)

theorem mem_found_iff {k : Key} {r : Record} :
    (k, r) ∈ e.found keys p ↔ k ∈ keys ∧ e.matching? k p = some r := by
  simp only [found, List.mem_filterMap, Option.map_eq_some_iff, Prod.mk.injEq]
  constructor
  · rintro ⟨k', hk, r', hr, rfl, rfl⟩
    exact ⟨hk, hr⟩
  · rintro ⟨hk, hr⟩
    exact ⟨k, hk, r, hr, rfl, rfl⟩

theorem map_snd_found : (e.found keys p).map Prod.snd = keys.filterMap (e.matching? · p) := by
  rw [found, List.map_filterMap]
  simp [Option.map_map, Function.comp_def]

theorem map_fst_found :
    (e.found keys p).map Prod.fst = keys.filter fun k => (e.matching? k p).isSome := by
  unfold found
  induction keys with
  | nil => rfl
  | cons k keys ih => cases h : e.matching? k p <;> simp [h, ih]

theorem nodup_found {keys : List Key} (h : keys.Nodup) : ((e.found keys p).map Prod.fst).Nodup := by
  rw [map_fst_found]
  exact h.filter _

variable {e p}

theorem matching?_eq_some_iff_value? {k : Key} {r : Record} :
    e.matching? k p = some r ↔ e.value? k = some (.record r) ∧ p.holds r := by
  rw [matching?_eq_some_iff, record?]
  refine and_congr_left fun _ => ?_
  cases e.value? k with
  | none => simp
  | some v => cases v <;> simp [Value.record?]

theorem salary?_of_matching? {k : Key} {r : Record} (h : e.matching? k p = some r) :
    e.salary? k = some r.salary := by
  rw [e.salary?_eq_map_record?, ((e.matching?_eq_some_iff k).1 h).1, Option.map_some]

/-! ## By the index -/

/-- A range lists a key before all keys with a greater salary, and before the greater ones with the
same salary. -/
theorem pairwise_range (h : e.IndexMatches) (min max : Binary64) :
    (e.index.range min max).Pairwise fun a b => ∀ s s', e.salary? a = some s →
      e.salary? b = some s' → compare s s' = .lt ∨ (s = s' ∧ compare a b = .lt) := by
  have hsalary {s : Binary64} {keys : TreeSet Key compare} {a : Key}
      (hs : (s, keys) ∈ e.index.toList) (ha : a ∈ keys.toList) : e.salary? a = some s := by
    rw [← h a s, e.index.bucket_of_mem_toList s hs]
    exact TreeSet.mem_toList.1 ha
  unfold SalaryIndex.range
  rw [List.pairwise_flatMap]
  constructor
  · rintro ⟨s, keys⟩ hs
    have hs : (s, keys) ∈ e.index.toList := (List.mem_filter.1 hs).1
    refine List.Pairwise.imp_of_mem ?_ keys.ordered_toList
    intro a b ha hb hab s₁ s₂ h₁ h₂
    rw [hsalary hs ha] at h₁
    rw [hsalary hs hb] at h₂
    exact .inr ⟨Option.some.inj (h₁.symm.trans h₂), hab⟩
  · refine List.Pairwise.imp_of_mem ?_ (e.index.ordered_keys_toList.filter _)
    rintro ⟨s, keys⟩ ⟨s', keys'⟩ hs hs' hlt a ha b hb s₁ s₂ h₁ h₂
    rw [hsalary (List.mem_filter.1 hs).1 ha] at h₁
    rw [hsalary (List.mem_filter.1 hs').1 hb] at h₂
    cases h₁
    cases h₂
    exact .inl hlt

theorem pairwise_found_range (h : e.IndexMatches) :
    (e.found (e.index.range p.min p.max) p).Pairwise BySalary := by
  refine (pairwise_range h p.min p.max).filterMap _ ?_
  intro a b hab x hx y hy
  obtain ⟨r, hr, rfl⟩ := Option.map_eq_some_iff.1 hx
  obtain ⟨r', hr', rfl⟩ := Option.map_eq_some_iff.1 hy
  exact hab r.salary r'.salary (salary?_of_matching? hr) (salary?_of_matching? hr')

theorem mem_found_range_iff (h : e.IndexMatches) {k : Key} {r : Record} :
    (k, r) ∈ e.found (e.index.range p.min p.max) p ↔ e.value? k = some (.record r) ∧
      (compare p.min r.salary).isLE ∧ (compare r.salary p.max).isLT ∧ p.holds r := by
  rw [mem_found_iff, e.mem_range_iff_of_matches k h]
  constructor
  · rintro ⟨⟨s, hs, hmin, hmax⟩, hr⟩
    rw [salary?_of_matching? hr] at hs
    cases hs
    obtain ⟨hvalue, hholds⟩ := matching?_eq_some_iff_value?.1 hr
    exact ⟨hvalue, hmin, hmax, hholds⟩
  · rintro ⟨hvalue, hmin, hmax, hholds⟩
    have hr := matching?_eq_some_iff_value?.2 ⟨hvalue, hholds⟩
    exact ⟨⟨r.salary, salary?_of_matching? hr, hmin, hmax⟩, hr⟩

/-! ## By a scan -/

variable (e p) in
/-- What a scan finds that meets the keys in the given order. -/
def scanned : List (Key × Record) := (e.found keys p).mergeSort fun x y => x.2.id ≤ y.2.id

theorem scanned_perm : (e.scanned keys p).Perm (e.found keys p) := List.mergeSort_perm _ _

theorem pairwise_scanned : (e.scanned keys p).Pairwise ByRecordId := by
  have htrans (x y z : Key × Record) (hxy : decide (x.2.id ≤ y.2.id))
      (hyz : decide (y.2.id ≤ z.2.id)) : decide (x.2.id ≤ z.2.id) := by
    rw [decide_eq_true_eq] at hxy hyz ⊢
    exact UInt64.le_trans hxy hyz
  have htotal (x y : Key × Record) : decide (x.2.id ≤ y.2.id) || decide (y.2.id ≤ x.2.id) := by
    simpa using UInt64.le_total x.2.id y.2.id
  exact (List.pairwise_mergeSort htrans htotal (e.found keys p)).imp fun h => of_decide_eq_true h

theorem map_snd_scanned : (e.scanned e.latest.keys p).map Prod.snd = e.scanQuery p := by
  rw [scanQuery_eq, ← map_snd_found]
  exact List.map_mergeSort fun _ _ _ _ => rfl

variable {keys}

theorem nodup_scanned (h : keys.Perm e.latest.keys) :
    ((e.scanned keys p).map Prod.fst).Nodup := by
  rw [((scanned_perm keys).map Prod.fst).nodup_iff]
  exact e.nodup_found p (h.nodup_iff.2 e.latest.nodup_keys)

theorem mem_scanned_iff (h : keys.Perm e.latest.keys) {k : Key} {r : Record} :
    (k, r) ∈ e.scanned keys p ↔ e.value? k = some (.record r) ∧ p.holds r := by
  rw [(scanned_perm keys).mem_iff, mem_found_iff, ← matching?_eq_some_iff_value?]
  exact and_iff_right_of_imp fun hr => h.mem_iff.2 (e.mem_keys_of_matching? k hr)

end Entries

namespace Store

/-- What a query is to answer. -/
structure QueryAnswer (s : Store) (p : Predicate) (answer : List Record) : Prop where
  by_salary : s.settings.indexed → p.field = .salary →
    ∃ found : List (Key × Record), answer = found.map Prod.snd ∧ (found.map Prod.fst).Nodup ∧
      found.Pairwise BySalary ∧ ∀ k r, (k, r) ∈ found ↔ s.get k = some (.record r) ∧
        (compare p.min r.salary).isLE ∧ (compare r.salary p.max).isLT ∧ p.holds r
  by_id : ¬ (s.settings.indexed ∧ p.field = .salary) →
    ∃ found : List (Key × Record), answer = found.map Prod.snd ∧ (found.map Prod.fst).Nodup ∧
      found.Pairwise ByRecordId ∧ ∀ k r, (k, r) ∈ found ↔ s.get k = some (.record r) ∧ p.holds r

theorem queryAnswer_query {s : Store} (hmatches : s.settings.indexed → s.entries.IndexMatches)
    (p : Predicate) : s.QueryAnswer p (s.query p) := by
  constructor
  · intro hi hsalary
    have hquery : s.query p = s.entries.indexQuery p := by
      simp [Store.query, Entries.query, hi, hsalary]
    refine ⟨s.entries.found (s.entries.index.range p.min p.max) p, ?_, ?_, ?_, ?_⟩
    · rw [hquery, Entries.indexQuery_eq, Entries.map_snd_found]
    · exact s.entries.nodup_found p (s.entries.nodup_range (hmatches hi) p.min p.max)
    · exact Entries.pairwise_found_range (hmatches hi)
    · exact fun k r => Entries.mem_found_range_iff (hmatches hi)
  · intro hscan
    have hquery : s.query p = s.entries.scanQuery p := by
      simp [Store.query, Entries.query, hscan]
    refine ⟨s.entries.scanned s.entries.latest.keys p, ?_, ?_, ?_, ?_⟩
    · rw [hquery, Entries.map_snd_scanned]
    · exact Entries.nodup_scanned (.refl _)
    · exact Entries.pairwise_scanned s.entries.latest.keys
    · exact fun k r => Entries.mem_scanned_iff (.refl _)

end Store

namespace Cache

/-- A query of a cache after any run asks for no range that there is not, and answers as it is
to. -/
theorem queryAnswer_of_run (settings : Settings) (rs : List Request) (p : Predicate) :
    let c := ((ofSettings settings).run rs).2
    ∃ answer, (c.step (.query p)).1 = .ok answer ∧
      c.store.entries.query? p c.store.settings.indexed = some answer ∧
      c.store.QueryAnswer p answer := by
  intro c
  refine ⟨c.store.query p, rfl, Entries.query?_eq_some _ p _, Store.queryAnswer_query ?_ p⟩
  intro hi
  have hsettings : c.store.settings = settings := settings_run (ofSettings settings) rs
  rw [hsettings] at hi
  exact indexMatches_run hi Entries.indexMatches_empty rs

end Cache

end CacheBench
