import CacheBench.Proofs.Timeline
import CacheBench.Proofs.SalaryIndex

/-!
# A cache with an index and one without

The index takes no part in writing, in reading a key or in a transaction: a cache that loses its
index takes the same steps as before. Two caches that differ only in having an index therefore hold
the same values after the same requests, and their salary queries differ in the zeros alone.
-/

namespace CacheBench

namespace Entries

def unindexed (e : Entries) : Entries := { e with index := ∅ }

theorem unindexed_put (indexed : Bool) (version : Version) (e : Entries) (k : Key) (v : Value) :
    e.unindexed.put false version k v = (e.put indexed version k v).unindexed := rfl

theorem unindexed_putAll (indexed : Bool) (version : Version) (e : Entries) (b : Batch) :
    e.unindexed.putAll false version b = (e.putAll indexed version b).unindexed := by
  rw [putAll_eq_putPairs, putAll_eq_putPairs]
  generalize b.toList = pairs
  induction pairs generalizing e with
  | nil => rfl
  | cons p pairs ih =>
      have hput := unindexed_put indexed version e p.1 p.2
      exact (congrArg (fun e => putPairs false version e pairs) hput).trans
        (ih (e.put indexed version p.1 p.2))

end Entries

namespace Store

variable (s : Store)

def unindexed : Store :=
  { s with settings := { s.settings with indexed := false }, entries := s.entries.unindexed }

theorem unindexed_apply (b : Batch) : s.unindexed.apply b = (s.apply b).unindexed := by
  have hput := Entries.unindexed_putAll s.settings.indexed s.nextVersion s.entries b
  simp only [apply, unindexed, hput]

end Store

namespace Transaction

variable (s : Store) (tx : Transaction)

theorem lock?_unindexed (k : Key) (t : TxId) :
    s.unindexed.lock? k t = (s.lock? k t).map Store.unindexed := by
  unfold Store.lock?
  have hlocks : s.unindexed.locks = s.locks := rfl
  rw [hlocks]
  cases s.locks[k]? with
  | none => rfl
  | some owner =>
      by_cases ho : owner = t
      · simp [ho]
      · simp [ho]

theorem put_unindexed (k : Key) (v : Value) :
    tx.put s.unindexed k v = (tx.put s k v).map fun p => (p.1.unindexed, p.2) := by
  have hsettings : s.unindexed.settings.concurrency = s.settings.concurrency := rfl
  by_cases hp : s.settings.concurrency = .pessimistic ∧ k ∉ tx.held
  · simp only [put, acquire, hsettings, if_pos hp, lock?_unindexed]
    cases s.lock? k tx.id <;> rfl
  · simp only [put, acquire, hsettings, if_neg hp]
    rfl

theorem commit_unindexed :
    tx.commit s.unindexed = ((tx.commit s).1, (tx.commit s).2.unindexed) := by
  have hsettings : s.unindexed.settings.concurrency = s.settings.concurrency := rfl
  have hconflict : tx.conflict? s.unindexed = tx.conflict? s := rfl
  unfold commit
  rw [hsettings, hconflict, s.unindexed_apply]
  by_cases hw : tx.writes.isEmpty
  · rw [if_pos hw, if_pos hw]
    rfl
  · rw [if_neg hw, if_neg hw]
    split <;> rfl

end Transaction

namespace Cache

variable (c : Cache)

def unindexed : Cache := { c with store := c.store.unindexed }

theorem step_unindexed (r : Request) : (c.unindexed.step r).2 = (c.step r).2.unindexed := by
  rcases c.not_live_or_live r with ⟨t, hr, hl⟩ | hlive
  · rw [step_of_not_live hl hr, step_of_not_live (c := c.unindexed) hl hr]
  cases r with
  | get _ | query _ | size => rfl
  | put k v => exact congrArg (Cache.mk · c.live) (c.store.unindexed_apply _)
  | putAll b =>
      by_cases hb : b.isEmpty
      · simp [step, Store.putAll, hb]
      · simp only [step, Store.putAll, hb]
        exact congrArg (Cache.mk · c.live) (c.store.unindexed_apply _)
  | begin =>
      by_cases hs : c.store.settings.transactional
      · rw [step_begin hs, step_begin (c := c.unindexed) hs]
        rfl
      · rw [step_begin_of_not_transactional hs,
          step_begin_of_not_transactional (c := c.unindexed) hs]
  | txGet t k =>
      obtain ⟨tx, hl⟩ := hlive t rfl
      rw [step_txGet hl, step_txGet (c := c.unindexed) hl]
      rfl
  | txPut t k v =>
      obtain ⟨tx, hl⟩ := hlive t rfl
      have hput : tx.put c.unindexed.store k v = _ := tx.put_unindexed c.store k v
      cases hp : tx.put c.store k v with
      | error e =>
          rw [hp] at hput
          rw [step_txPut_of_error hl hp, step_txPut_of_error (c := c.unindexed) hl hput]
      | ok p =>
          rw [hp] at hput
          rw [step_txPut_of_ok hl hp, step_txPut_of_ok (c := c.unindexed) hl hput]
          rfl
  | commit t =>
      obtain ⟨tx, hl⟩ := hlive t rfl
      have hcommit : tx.commit c.unindexed.store = _ := tx.commit_unindexed c.store
      rw [step_commit hl, step_commit (c := c.unindexed) hl, hcommit]
      rfl
  | rollback t =>
      obtain ⟨tx, hl⟩ := hlive t rfl
      rw [step_rollback hl, step_rollback (c := c.unindexed) hl]
      rfl
  | drop t =>
      obtain ⟨tx, hl⟩ := hlive t rfl
      rw [step_drop hl, step_drop (c := c.unindexed) hl]
      rfl

theorem run_unindexed (rs : List Request) :
    (c.unindexed.run rs).2 = (c.run rs).2.unindexed := by
  induction rs generalizing c with
  | nil => rfl
  | cons r rs ih =>
      simp only [run]
      rw [step_unindexed, ih]

/-- In an indexed cache the index keeps up with every request. -/
theorem indexMatches_run {c : Cache} (hi : c.store.settings.indexed)
    (h : c.store.entries.IndexMatches) (rs : List Request) :
    (c.run rs).2.store.entries.IndexMatches := by
  refine entries_run_induction c rs h fun version e k v he => ?_
  rw [hi]
  exact he.put version k v

theorem settings_run (rs : List Request) : (c.run rs).2.store.settings = c.store.settings :=
  run_induction c rs (P := fun c' => c'.store.settings = c.store.settings) rfl
    fun c' r h => (c'.settings_step r).trans h

def reached (settings : Settings) (indexed : Bool) (rs : List Request) : Cache :=
  ((ofSettings { settings with indexed }).run rs).2

theorem reached_false (settings : Settings) (rs : List Request) :
    reached settings false rs = (reached settings true rs).unindexed :=
  (ofSettings { settings with indexed := true }).run_unindexed rs

/-- After the same requests the salary query of an indexed cache returns the records that the query
of an unindexed one returns, each as often, unless the interval begins at zero and some record that
is stored has negative zero for its salary. -/
theorem salary_query_agrees_iff (settings : Settings) (rs : List Request) (min max : Binary64) :
    ((reached settings true rs).store.query (.salary min max)).Perm
        ((reached settings false rs).store.query (.salary min max)) ↔
      ¬ (min = .zero ∧ Binary64.zero.lt max ∧
        ∃ k r, (reached settings false rs).store.get k = some (.record r) ∧ r.salary = -.zero) := by
  have hmatches : (reached settings true rs).store.entries.IndexMatches :=
    indexMatches_run rfl Entries.indexMatches_empty rs
  have hindexed : (reached settings true rs).store.settings.indexed = true :=
    congrArg Settings.indexed (settings_run _ rs)
  have hquery : (reached settings true rs).store.query (.salary min max) =
      (reached settings true rs).store.entries.indexQuery (.salary min max) := by
    simp [Store.query, Entries.query, hindexed, Predicate.salary]
  have hquery' : (reached settings false rs).store.query (.salary min max) =
      (reached settings true rs).store.entries.scanQuery (.salary min max) := by
    rw [reached_false]
    rfl
  have hget : ∀ k, (reached settings false rs).store.get k =
      (reached settings true rs).store.entries.value? k := by
    rw [reached_false]
    exact fun _ => rfl
  rw [hquery, hquery', Entries.indexQuery_perm_scanQuery_iff hmatches]
  simp only [hget, Entries.salary?_eq_some_iff]

/-- A record whose salary is negative zero. -/
def negativeZero : Record := { Record.forIndex 1 with salary := -.zero }

theorem negativeZero_query_disagrees :
    ¬ ((reached { name := "queryCache" } true [.put 1 (.record negativeZero)]).store.query
        (.salary .zero (.ofNat 1))).Perm
      ((reached { name := "queryCache" } false [.put 1 (.record negativeZero)]).store.query
        (.salary .zero (.ofNat 1))) := by
  intro h
  have hindexed : (reached { name := "queryCache" } true
      [.put 1 (.record negativeZero)]).store.query (.salary .zero (.ofNat 1)) = [] := rfl
  have hplain : (reached { name := "queryCache" } false
      [.put 1 (.record negativeZero)]).store.query (.salary .zero (.ofNat 1)) = [negativeZero] :=
    List.mergeSort_singleton negativeZero
  rw [hindexed, hplain] at h
  cases h.length_eq

end Cache

end CacheBench
