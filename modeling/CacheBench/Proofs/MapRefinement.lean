import CacheBench.Proofs.Calls
import Mathlib.Data.Finset.Basic
import Mathlib.Data.Finset.Card
import Mathlib.Data.Finset.Dedup

/-!
# A cache as a map

Behind versions, buffers, locks and index a cache is a map that batches are written to. `Applies`
tells from the requests and their answers alone which batch a request writes: a put, a put of a
batch that is not empty, or a commit that succeeded of a transaction that has put something. At
every instant a key has the value from the last batch with the key, and its version is the number
of that batch.
-/

namespace CacheBench

open Std (TreeMap)

namespace Batch

/-- The number of the last batch that has a key, counted from one, with the value of the key
there. -/
def lastWith? (batches : List Batch) (k : Key) : Option (Nat × Value) :=
  (batches.zipIdx 1).reverse.findSome? fun (b, number) => b[k]?.map (number, ·)

@[simp] theorem lastWith?_nil (k : Key) : lastWith? [] k = none := rfl

theorem lastWith?_concat (batches : List Batch) (b : Batch) (k : Key) :
    lastWith? (batches ++ [b]) k =
      match b[k]? with
      | some v => some (batches.length + 1, v)
      | none => lastWith? batches k := by
  unfold lastWith?
  rw [List.zipIdx_append, List.reverse_append, List.zipIdx_singleton, List.reverse_singleton,
    List.singleton_append, List.findSome?_cons, Nat.add_comm 1]
  dsimp only
  cases b[k]? <;> rfl

theorem isSome_lastWith?_iff (batches : List Batch) (k : Key) :
    (lastWith? batches k).isSome ↔ ∃ b ∈ batches, k ∈ b := by
  induction batches using List.reverseRecOn with
  | nil => simp
  | append_singleton batches b ih =>
      rw [lastWith?_concat]
      have hmem := TreeMap.mem_iff_isSome_getElem? (t := b) (a := k)
      simp only [List.mem_append, List.mem_singleton, or_and_right, exists_or, exists_eq_left]
      cases hk : b[k]? with
      | none => simp [hmem, hk, ih]
      | some v => simp [hmem, hk]

end Batch

namespace Cache

inductive Applies (c : Cache) (rs : List Request) (n : Nat) : Batch → Prop
  | put {k : Key} {v : Value} (h : c.Answers rs n (.put k v) (.ok ())) :
    c.Applies rs n (Batch.ofList [(k, v)])
  | putAll {b : Batch} (h : c.Answers rs n (.putAll b) (.ok ())) (hb : ¬ b.isEmpty) :
    c.Applies rs n b
  | commit {t : TxId} (h : c.Answers rs n (.commit t) (.ok ()))
    (hb : ¬ (c.buffered rs t n).isEmpty) : c.Applies rs n (c.buffered rs t n)

variable {settings : Settings} {rs : List Request} {n : Nat} {r : Request}

theorem batch?_commit_eq_some_iff {t : TxId} {b : Batch} (hr : rs[n]? = some (.commit t)) :
    ((ofSettings settings).before rs n).batch? (.commit t) = some b ↔
      (ofSettings settings).Answers rs n (.commit t) (.ok ()) ∧ ¬ b.isEmpty ∧
        b = (ofSettings settings).buffered rs t n := by
  rw [answers_iff]
  cases hl : ((ofSettings settings).before rs n).live[t]? with
  | none =>
      rw [step_of_not_live hl rfl, batch?_of_not_live hl rfl]
      simp
  | some tx =>
      rw [batch?_commit hl, Transaction.batch?_eq_some_iff, step_commit hl,
        writes_eq_buffered n tx hl]
      simp [hr]

/-- The batch that a request applies to the store is the one that the history tells. -/
theorem applies_iff (hr : rs[n]? = some r) (b : Batch) :
    (ofSettings settings).Applies rs n b ↔
      ((ofSettings settings).before rs n).batch? r = some b := by
  constructor
  · rintro (h | ⟨h, hb⟩ | ⟨h, hb⟩)
    · cases hr.symm.trans ((answers_iff _ rs).1 h).1
      rfl
    · cases hr.symm.trans ((answers_iff _ rs).1 h).1
      simp [batch?, hb]
    · cases hr.symm.trans ((answers_iff _ rs).1 h).1
      exact (batch?_commit_eq_some_iff hr).2 ⟨h, hb, rfl⟩
  · intro hb
    cases r with
    | get _ | query _ | size | begin | txGet _ _ | txPut _ _ _ | rollback _ | drop _ => cases hb
    | put k v =>
        obtain rfl := Option.some.inj hb
        exact .put ((answers_iff _ rs).2 ⟨hr, rfl⟩)
    | putAll b' =>
        by_cases hempty : b'.isEmpty
        · simp [batch?, hempty] at hb
        · simp only [batch?, hempty] at hb
          obtain rfl := Option.some.inj hb
          exact .putAll ((answers_iff _ rs).2 ⟨hr, rfl⟩) hempty
    | commit t =>
        obtain ⟨h, hne, rfl⟩ := (batch?_commit_eq_some_iff hr).1 hb
        exact .commit h hne

/-! ## The map at an instant -/

/-- At instant `n` the cache is the map to which the batches of the requests before it have been
written, one after the other. -/
structure IsMapAt (c : Cache) (rs : List Request) (n : Nat) : Prop where
  /-- The next request adds the batch that it applies, if it applies any. -/
  next : ∀ r, rs[n]? = some r → ∃ applied : Option Batch,
    (∀ b, applied = some b ↔ c.Applies rs n b) ∧
      c.batches (rs.take (n + 1)) = c.batches (rs.take n) ++ applied.toList
  number : (c.before rs n).store.nextVersion.toNat = (c.batches (rs.take n)).length + 1
  get : ∀ k, ((c.before rs n).step (.get k)).1 =
    .ok ((Batch.lastWith? (c.batches (rs.take n)) k).map Prod.snd)
  version : ∀ k, ((c.before rs n).store.entries.version k).toNat =
    ((Batch.lastWith? (c.batches (rs.take n)) k).map Prod.fst).getD 0
  size : ((c.before rs n).step .size).1 =
    .ok ((c.batches (rs.take n)).flatMap TreeMap.keys).toFinset.card

section Bounded

variable (hw : ((ofSettings settings).batches rs).length < 2 ^ 64 - 1)

include hw

/-- The entry of a key is that of the last batch with the key. -/
theorem latest_before_eq_lastWith? (n : Nat) (k : Key) :
    (((ofSettings settings).before rs n).store.entries.latest[k]?.map
        fun x => (x.version.toNat, x.value)) =
      Batch.lastWith? ((ofSettings settings).batches (rs.take n)) k := by
  induction n with
  | zero => simp [ofSettings, batches]
  | succ n ih =>
      cases hr : rs[n]? with
      | none =>
          have htake : rs.take (n + 1) = rs.take n := by
            rw [List.take_add_one, hr, Option.toList_none, List.append_nil]
          rw [before_succ_of_none _ rs hr, htake, ih]
      | some r =>
          rw [before_succ _ rs hr, entries_step, batches_take_succ _ rs hr]
          cases hb : ((ofSettings settings).before rs n).batch? r with
          | none => simpa using ih
          | some b =>
              -- the version of a batch is the number of batches up to it
              have hnumber := toNat_nextVersion_before hw n
              rw [Option.toList_some, Batch.lastWith?_concat, Store.applied_some, Store.apply,
                Entries.latest_putAll]
              cases b[k]? with
              | none => exact ih
              | some v => simp [hnumber, Nat.add_comm]

theorem size_before_eq_card (n : Nat) :
    ((ofSettings settings).before rs n).store.size =
      (((ofSettings settings).batches (rs.take n)).flatMap TreeMap.keys).toFinset.card := by
  rw [Store.size, Entries.size, ← TreeMap.length_keys, ← List.toFinset_card_of_nodup
    TreeMap.nodup_keys]
  congr 1
  ext k
  have hlast := latest_before_eq_lastWith? hw n k
  have hsome := Batch.isSome_lastWith?_iff ((ofSettings settings).batches (rs.take n)) k
  rw [← hlast, Option.isSome_map, ← TreeMap.mem_iff_isSome_getElem?] at hsome
  simp only [List.mem_toFinset, TreeMap.mem_keys, List.mem_flatMap, hsome]

end Bounded

/-- A cache refines a map. The batches that it applies are those of the puts, of the puts of
batches that are not empty, and of the commits of writers that succeeded. They have the versions
one, two, three and so on. At every instant the cache answers as the map of the batches so far. -/
theorem isMapAt_every_instant (settings : Settings) (rs : List Request)
    (hw : ((ofSettings settings).batches rs).length < 2 ^ 64 - 1) (n : Nat) :
    (ofSettings settings).IsMapAt rs n := by
  have hlast := latest_before_eq_lastWith? hw n
  refine ⟨?_, ?_, ?_, ?_, ?_⟩
  · intro r hr
    refine ⟨((ofSettings settings).before rs n).batch? r, ?_, batches_take_succ _ rs hr⟩
    exact fun b => (applies_iff hr b).symm
  · rw [toNat_nextVersion_before hw, Nat.add_comm]
  · intro k
    rw [← hlast k, Option.map_map]
    rfl
  · intro k
    rw [← hlast k, Option.map_map, Entries.version]
    cases ((ofSettings settings).before rs n).store.entries.latest[k]? <;> rfl
  · rw [← size_before_eq_card hw]
    rfl

/-- Of six transactions the first conflicts, the second is rolled back, the third is dropped, the
fourth commits, the fifth commits without having put anything and the last stays open. -/
def manyEnds : List Request :=
  [.begin, .begin, .begin, .begin, .begin, .begin, .txGet 1 5, .put 5 (.int 1),
    .txPut 1 5 (.int 2), .commit 1, .txPut 2 6 (.int 3), .rollback 2, .txPut 3 7 (.int 4), .drop 3,
    .txPut 4 5 (.int 5), .txPut 4 8 (.int 6), .commit 4, .putAll ∅, .commit 5,
    .putAll (Batch.ofList [(8, .int 7), (9, .int 8)]), .txPut 6 10 (.int 9)]

theorem isMapAt_every_instant_manyEnds :
    ((ofSettings { name := "transactional", transactional := true }).batches manyEnds).length <
        2 ^ 64 - 1 ∧
      (ofSettings { name := "transactional", transactional := true }).IsMapAt manyEnds 21 :=
  ⟨by decide, isMapAt_every_instant _ manyEnds (by decide) 21⟩

end Cache

end CacheBench
