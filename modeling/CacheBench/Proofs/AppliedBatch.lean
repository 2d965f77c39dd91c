import CacheBench.Cache
import Mathlib.Tactic.Common

/-!
# What a batch leaves in the entries

A batch is put pair by pair, in the order of its keys. Afterwards a key of the batch has the value
of its pair under the version of the batch, and every other key has what it had. The statements
are about `Entries.putAll`; `Store.applied` is a store after a batch or after none.
-/

namespace CacheBench

open Std (TreeMap)

theorem Batch.mem_ofList_singleton {k a : Key} {v : Value} :
    a ∈ Batch.ofList [(k, v)] ↔ a = k := by
  simp only [ofList, List.foldl_cons, List.foldl_nil, TreeMap.mem_insert, TreeMap.not_mem_emptyc,
    or_false, Std.LawfulEqCmp.compare_eq_iff_eq]
  exact eq_comm

namespace Entries

variable (indexed : Bool) (version : Version)

theorem latest_put (e : Entries) (k a : Key) (v : Value) :
    (e.put indexed version k v).latest[a]? = if k = a then some ⟨version, v⟩ else e.latest[a]? := by
  simp [put, TreeMap.getElem?_insert]

def putPairs (e : Entries) (pairs : List (Key × Value)) : Entries :=
  pairs.foldl (fun e (k, v) => e.put indexed version k v) e

theorem putAll_eq_putPairs (e : Entries) (b : Batch) :
    e.putAll indexed version b = e.putPairs indexed version b.toList := rfl

/-- What each put keeps is kept by a batch. -/
theorem putAll_induction {P : Entries → Prop}
    (hput : ∀ e k v, P e → P (e.put indexed version k v)) {e : Entries} (h : P e) (b : Batch) :
    P (e.putAll indexed version b) := by
  rw [putAll_eq_putPairs]
  generalize b.toList = pairs
  induction pairs generalizing e with
  | nil => exact h
  | cons p pairs ih => exact ih (hput e p.1 p.2 h)

theorem latest_putPairs_of_not_mem (e : Entries) (pairs : List (Key × Value)) (a : Key)
    (ha : ∀ p ∈ pairs, p.1 ≠ a) :
    (e.putPairs indexed version pairs).latest[a]? = e.latest[a]? := by
  induction pairs generalizing e with
  | nil => rfl
  | cons p pairs ih =>
      have hp : p.1 ≠ a := ha p (by simp)
      have htail := ih (e.put indexed version p.1 p.2) (fun q hq => ha q (by simp [hq]))
      rw [latest_put, if_neg hp] at htail
      exact htail

theorem latest_putPairs_of_mem (e : Entries) (pairs : List (Key × Value)) (a : Key) (v : Value)
    (hd : pairs.Pairwise fun p q => p.1 ≠ q.1) (hm : (a, v) ∈ pairs) :
    (e.putPairs indexed version pairs).latest[a]? = some ⟨version, v⟩ := by
  induction pairs generalizing e with
  | nil => cases hm
  | cons p pairs ih =>
      obtain ⟨hp, htail⟩ := List.pairwise_cons.1 hd
      rcases List.mem_cons.1 hm with rfl | hm
      · have hrest := latest_putPairs_of_not_mem indexed version (e.put indexed version a v) pairs a
          (fun q hq => (hp q hq).symm)
        rw [latest_put, if_pos rfl] at hrest
        exact hrest
      · exact ih _ htail hm

theorem toList_keys_ne (b : Batch) : b.toList.Pairwise fun p q => p.1 ≠ q.1 :=
  b.distinct_keys_toList.imp fun h heq => h (Std.LawfulEqCmp.compare_eq_iff_eq.2 heq)

theorem latest_putAll (e : Entries) (b : Batch) (a : Key) :
    (e.putAll indexed version b).latest[a]? =
      match b[a]? with
      | some v => some ⟨version, v⟩
      | none => e.latest[a]? := by
  rw [putAll_eq_putPairs]
  cases hb : b[a]? with
  | some v =>
      exact latest_putPairs_of_mem indexed version e b.toList a v (toList_keys_ne b)
        (TreeMap.mem_toList_iff_getElem?_eq_some.2 hb)
  | none =>
      apply latest_putPairs_of_not_mem
      rintro ⟨k, v⟩ hp rfl
      rw [TreeMap.mem_toList_iff_getElem?_eq_some.1 hp] at hb
      cases hb

theorem latest_putAll_of_not_mem (e : Entries) (b : Batch) {a : Key} (ha : a ∉ b) :
    (e.putAll indexed version b).latest[a]? = e.latest[a]? := by
  rw [latest_putAll, TreeMap.getElem?_eq_none ha]

theorem version_putAll_of_mem (e : Entries) (b : Batch) {a : Key} (ha : a ∈ b) :
    (e.putAll indexed version b).version a = version := by
  have hs : b[a]?.isSome := TreeMap.mem_iff_isSome_getElem?.1 ha
  obtain ⟨v, hv⟩ := Option.isSome_iff_exists.1 hs
  rw [Entries.version, latest_putAll, hv]
  rfl

theorem version_eq_of_latest_eq {e e' : Entries} {a : Key} (h : e.latest[a]? = e'.latest[a]?) :
    e.version a = e'.version a := by
  rw [Entries.version, h, Entries.version]

theorem value?_eq_of_latest_eq {e e' : Entries} {a : Key} (h : e.latest[a]? = e'.latest[a]?) :
    e.value? a = e'.value? a := by
  rw [value?, h, value?]

end Entries

namespace Store

def applied (s : Store) : Option Batch → Store
  | some b => s.apply b
  | none => s

@[simp] theorem applied_none (s : Store) : s.applied none = s := rfl

@[simp] theorem applied_some (s : Store) (b : Batch) : s.applied (some b) = s.apply b := rfl

@[simp] theorem settings_applied (s : Store) (b? : Option Batch) :
    (s.applied b?).settings = s.settings := by cases b? <;> rfl

@[simp] theorem locks_applied (s : Store) (b? : Option Batch) :
    (s.applied b?).locks = s.locks := by cases b? <;> rfl

@[simp] theorem nextTx_applied (s : Store) (b? : Option Batch) :
    (s.applied b?).nextTx = s.nextTx := by cases b? <;> rfl

end Store

end CacheBench
