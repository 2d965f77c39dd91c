import CacheBench.Proofs.IndexAgreement

/-!
# The buckets of the index

What each put keeps of the entries holds after any run. In an indexed cache that is the order of its
index: a key is in the bucket of a salary exactly when its value is a record with that salary, bit
for bit, so it is in one bucket at most, and a bucket that has lost its last key is gone. A cache
without an index has no buckets.
-/

namespace CacheBench

open Std (TreeMap TreeSet)

theorem Binary64.eq_iff_bits_eq {x y : Binary64} : x = y ↔ x.bits = y.bits :=
  ⟨congrArg bits, fun h => by cases x; exact congrArg mk h⟩

namespace SalaryIndex

variable {index : SalaryIndex}

def NoneEmpty (index : SalaryIndex) : Prop :=
  ∀ (s : Binary64) (keys : TreeSet Key), index[s]? = some keys → ¬ keys.isEmpty

theorem noneEmpty_empty : NoneEmpty ∅ := by
  intro s keys h
  simp at h

theorem NoneEmpty.remove (h : index.NoneEmpty) (salary : Binary64) (k : Key) :
    (index.remove salary k).NoneEmpty := by
  intro s keys hs
  unfold SalaryIndex.remove at hs
  dsimp only at hs
  split at hs
  · rw [TreeMap.getElem?_erase] at hs
    split at hs
    · cases hs
    · exact h s keys hs
  · rename_i hkeys
    rw [TreeMap.getElem?_insert] at hs
    split at hs
    · cases hs
      exact hkeys
    · exact h s keys hs

theorem NoneEmpty.add (h : index.NoneEmpty) (salary : Binary64) (k : Key) :
    (index.add salary k).NoneEmpty := by
  intro s keys hs
  rw [SalaryIndex.add, TreeMap.getElem?_insert] at hs
  split at hs
  · cases hs
    simp
  · exact h s keys hs

theorem NoneEmpty.moved (h : index.NoneEmpty) (k : Key) (old new : Option Binary64) :
    (Entries.moved index k old new).NoneEmpty := by
  have hremoved : (Entries.moved index k old none).NoneEmpty := by
    cases old with
    | none => exact h
    | some salary => exact h.remove salary k
  cases new with
  | none => exact hremoved
  | some salary => exact hremoved.add salary k

end SalaryIndex

namespace Cache

/-- What holds of the index of a cache. -/
structure IndexInOrder (c : Cache) : Prop where
  mem_bucket_iff : c.store.settings.indexed → ∀ k s, k ∈ c.store.entries.index.bucket s ↔
    ∃ r, c.store.get k = some (.record r) ∧ r.salary.bits = s.bits
  one_bucket : ∀ k s s', k ∈ c.store.entries.index.bucket s →
    k ∈ c.store.entries.index.bucket s' → s = s'
  none_empty : c.store.entries.index.NoneEmpty
  empty_of_unindexed : ¬ c.store.settings.indexed → c.store.entries.index = ∅

theorem index_empty_of_unindexed {settings : Settings} (hi : ¬ settings.indexed)
    (rs : List Request) : ((ofSettings settings).run rs).2.store.entries.index = ∅ := by
  refine entries_run_induction (ofSettings settings) rs (P := fun e => e.index = ∅) rfl ?_
  intro version e k v h
  rw [settings_ofSettings, Entries.put, if_neg hi, h]

theorem noneEmpty_run (settings : Settings) (rs : List Request) :
    ((ofSettings settings).run rs).2.store.entries.index.NoneEmpty := by
  refine entries_run_induction (ofSettings settings) rs (P := fun e => e.index.NoneEmpty)
    SalaryIndex.noneEmpty_empty ?_
  intro version e k v h
  unfold Entries.put
  split
  · exact h.moved k _ _
  · exact h

/-- After any run the index of a cache is in order. -/
theorem indexInOrder_run (settings : Settings) (rs : List Request) :
    ((ofSettings settings).run rs).2.IndexInOrder := by
  have hsettings := settings_run (ofSettings settings) rs
  have hmatches (hi : settings.indexed) :
      ((ofSettings settings).run rs).2.store.entries.IndexMatches :=
    indexMatches_run hi Entries.indexMatches_empty rs
  refine ⟨?_, ?_, noneEmpty_run settings rs, ?_⟩
  · intro hi k s
    rw [hsettings] at hi
    rw [hmatches hi k s, Entries.salary?_eq_some_iff]
    simp only [Store.get, Binary64.eq_iff_bits_eq]
  · intro k s s' hs hs'
    by_cases hi : settings.indexed
    · exact Option.some.inj (((hmatches hi k s).1 hs).symm.trans ((hmatches hi k s').1 hs'))
    · rw [index_empty_of_unindexed hi] at hs
      simp [SalaryIndex.bucket] at hs
  · intro hi
    rw [hsettings] at hi
    exact index_empty_of_unindexed hi rs

end Cache

end CacheBench
