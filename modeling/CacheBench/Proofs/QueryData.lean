import CacheBench.Proofs.QueryTasks

/-!
# The data of the query workloads

Any number of tasks of the query workloads work on one cache, each with a generator of its own, and
any of them may take the next step. What the cache holds are records of indexes in range, no test
fails, and a population that is complete has stored every index.
-/

namespace CacheBench

/-- A task under way, with the generator that it draws from. -/
structure QueryWorker where
  program : Program (Except (Fault WorkError) Outcome)
  generator : Generator

structure QueryLoad where
  cache : Cache
  workers : List QueryWorker

namespace QueryLoad

def start (settings : Settings) (config : Config) (tasks : List (QueryTask × Generator)) :
    QueryLoad where
  cache := .ofSettings settings
  workers := tasks.map fun (t, g) => ⟨(t.work config).run, g⟩

def step (s : QueryLoad) (w : Nat) : QueryLoad :=
  match s.workers[w]? with
  | some x =>
    let (p, c, g) := x.program.step (Service.withGenerator Cache.service)
      (s.cache, x.generator)
    { cache := c, workers := s.workers.set w ⟨p, g⟩ }
  | none => s

def run (s : QueryLoad) (schedule : List Nat) : QueryLoad := schedule.foldl step s

theorem run_append (s : QueryLoad) (schedule later : List Nat) :
    s.run (schedule ++ later) = (s.run schedule).run later := List.foldl_append

abbrev after (settings : Settings) (config : Config) (tasks : List (QueryTask × Generator))
    (schedule : List Nat) : QueryLoad := (start settings config tasks).run schedule

def Ended (s : QueryLoad) (w : Nat) (result : Except (Fault WorkError) Outcome) : Prop :=
  ∃ g, s.workers[w]? = some ⟨.done result, g⟩

def Populated (s : QueryLoad) (tasks : List (QueryTask × Generator)) (workers : Nat) : Prop :=
  ∀ worker < workers, ∃ w g, tasks[w]? = some (.populate worker workers, g) ∧
    s.Ended w (.ok .completed)

end QueryLoad

namespace Cache

/-- Each key is below `range` and has the record of itself as its index. -/
def HoldsRecords (range : Key) (c : Cache) : Prop :=
  ∀ k v, c.store.get k = some v → k < range ∧ v = .record (.forIndex k)

theorem get_put (s : Store) (k a : Key) (v : Value) :
    (s.put k v).get a = if k = a then some v else s.get a := by
  have hbatch : (Batch.ofList [(k, v)])[a]? = if k = a then some v else none := by
    simp [Batch.ofList, Std.TreeMap.getElem?_insert]
  rw [Store.get, Store.put, Store.apply, Entries.value?, Entries.latest_putAll, hbatch]
  by_cases ha : k = a
  · simp [ha]
  · simp [ha, Store.get, Entries.value?]

end Cache

/-- The next request or draw of a program leaves records in the cache, and the rest of the program
keeps to the same. -/
theorem Program.KeepsTo.step {α : Type} {range : Key} {post : Set Key → α → Prop} {p : Program α}
    {stored : Set Key} (h : p.KeepsTo range post stored) {c : Cache} (hc : c.HoldsRecords range)
    (hstored : ∀ k ∈ stored, (c.store.get k).isSome) (g : Generator) :
    ∃ p' c' g' stored', p.step (Service.withGenerator Cache.service) (c, g) = (p', c', g') ∧
      p'.KeepsTo range post stored' ∧ c'.HoldsRecords range ∧
      (∀ k ∈ stored', (c'.store.get k).isSome) ∧
      ∀ k, (c.store.get k).isSome → (c'.store.get k).isSome := by
  cases p with
  | done a => exact ⟨_, _, _, stored, rfl, h, hc, hstored, fun _ hk => hk⟩
  | draw d next =>
      exact ⟨_, _, _, stored, rfl, h _ (g.admits_draw d), hc, hstored, fun _ hk => hk⟩
  | ask r next =>
      cases r with
      | query p => exact ⟨_, _, _, stored, rfl, h c, hc, hstored, fun _ hk => hk⟩
      | put k v =>
          obtain ⟨hk, rfl, hnext⟩ := h
          have hkept : ∀ a, (c.store.get a).isSome →
              ((c.store.put k (.record (.forIndex k))).get a).isSome := by
            intro a ha
            rw [Cache.get_put]
            split
            · rfl
            · exact ha
          refine ⟨_, _, _, insert k stored, rfl, hnext, fun a v hv => ?_, fun a ha => ?_, hkept⟩
          · rw [Cache.get_put] at hv
            split at hv
            · subst a
              cases hv
              exact ⟨hk, rfl⟩
            · exact hc a v hv
          · rcases Set.mem_insert_iff.1 ha with rfl | ha
            · rw [Cache.get_put, if_pos rfl]
              rfl
            · exact hkept a (hstored a ha)
      | get | putAll | size | begin | txGet | txPut | commit | rollback | drop => exact h.elim

namespace QueryLoad

variable {config : Config} {tasks : List (QueryTask × Generator)} {s : QueryLoad}

/-- What holds between the steps of the workers. -/
structure Safe (config : Config) (tasks : List (QueryTask × Generator)) (s : QueryLoad) : Prop where
  records : s.cache.HoldsRecords config.range
  length : s.workers.length = tasks.length
  workers : ∀ (w : Nat) t g x, tasks[w]? = some (t, g) → s.workers[w]? = some x →
    ∃ stored : Set Key, (∀ k ∈ stored, (s.cache.store.get k).isSome) ∧
      x.program.KeepsTo config.range (fun stored result => t.Ends config.range stored result) stored

theorem safe_start (settings : Settings) (hrange : 0 < config.range)
    (tasks : List (QueryTask × Generator)) : (start settings config tasks).Safe config tasks where
  records k v hv := by
    have hnone : (Cache.ofSettings settings).store.get k = none := by
      simp [Cache.ofSettings, Store.get, Entries.value?]
    cases hnone.symm.trans hv
  length := List.length_map _
  workers w t g x ht hx := by
    have hx' : (tasks.map fun (t, g) => QueryWorker.mk (t.work config).run g)[w]? = some x := hx
    rw [List.getElem?_map, ht] at hx'
    cases hx'
    exact ⟨∅, fun k hk => absurd hk (Set.notMem_empty k), t.keepsTo_work hrange ∅⟩

theorem step_of_none {w : Nat} (hw : s.workers[w]? = none) : s.step w = s := by
  rw [step, hw]

theorem step_of_some {w : Nat} {x : QueryWorker} (hw : s.workers[w]? = some x)
    {p : Program (Except (Fault WorkError) Outcome)} {c : Cache} {g : Generator}
    (hstep : x.program.step (Service.withGenerator Cache.service) (s.cache, x.generator) =
      (p, c, g)) : s.step w = { cache := c, workers := s.workers.set w ⟨p, g⟩ } := by
  rw [step, hw]
  dsimp only
  rw [hstep]

theorem Safe.step (hs : s.Safe config tasks) (w : Nat) : (s.step w).Safe config tasks := by
  cases hw : s.workers[w]? with
  | none => rwa [step_of_none hw]
  | some x =>
      have hlt := (List.getElem?_eq_some_iff.1 hw).1
      obtain ⟨t, g, ht⟩ : ∃ t g, tasks[w]? = some (t, g) :=
        ⟨_, _, List.getElem?_eq_getElem (hs.length ▸ hlt)⟩
      obtain ⟨stored, hstored, hkeeps⟩ := hs.workers w t g x ht hw
      obtain ⟨p, c, _, stored', hstep, hkeeps', hrecords, hstored', hkept⟩ :=
        hkeeps.step hs.records hstored x.generator
      rw [step_of_some hw hstep]
      refine ⟨hrecords, (List.length_set ..).trans hs.length, fun w' t' g' x' ht' hx' => ?_⟩
      by_cases hww : w = w'
      · subst w'
        rw [List.getElem?_set_self hlt] at hx'
        cases hx'
        cases ht.symm.trans ht'
        exact ⟨stored', hstored', hkeeps'⟩
      · rw [List.getElem?_set_ne hww] at hx'
        obtain ⟨other, hother, hkeeps''⟩ := hs.workers w' t' g' x' ht' hx'
        exact ⟨other, fun k hk => hkept k (hother k hk), hkeeps''⟩

theorem Safe.run (hs : s.Safe config tasks) (schedule : List Nat) :
    (s.run schedule).Safe config tasks := by
  induction schedule generalizing s with
  | nil => exact hs
  | cons w schedule ih => exact ih (hs.step w)

/-- What a task has ended with is right for the keys that are there. -/
theorem Safe.ends (hs : s.Safe config tasks) {w : Nat} {t : QueryTask} {g : Generator}
    (ht : tasks[w]? = some (t, g)) {result : Except (Fault WorkError) Outcome}
    (hended : s.Ended w result) : ∃ stored : Set Key,
      (∀ k ∈ stored, (s.cache.store.get k).isSome) ∧ t.Ends config.range stored result := by
  obtain ⟨g', hx⟩ := hended
  exact hs.workers w t g _ ht hx

/-- The indexes of the workers of a population are all indexes below the range. -/
theorem Safe.populated (hs : s.Safe config tasks) {workers : Nat} (hworkers : 0 < workers)
    (hdone : s.Populated tasks workers) (k : Key) :
    (s.cache.store.get k).isSome ↔ k < config.range := by
  constructor
  · intro hk
    obtain ⟨v, hv⟩ := Option.isSome_iff_exists.1 hk
    exact (hs.records k v hv).1
  · intro hk
    obtain ⟨w, g, ht, hended⟩ := hdone (k.toNat % workers) (Nat.mod_lt _ hworkers)
    obtain ⟨stored, hstored, -, hall⟩ := hs.ends ht hended
    have hsplit : k.toNat % workers + k.toNat / workers * workers = k.toNat := by
      rw [Nat.mul_comm]
      exact Nat.mod_add_div _ _
    have hmem := hall hworkers rfl (k.toNat / workers)
    rw [hsplit, UInt64.ofNat_toNat] at hmem
    exact hstored k (hmem (UInt64.lt_iff_toNat_lt.1 hk))

theorem Ended.run {w : Nat} {result : Except (Fault WorkError) Outcome} (hended : s.Ended w result)
    (later : List Nat) : (s.run later).Ended w result := by
  induction later generalizing s with
  | nil => exact hended
  | cons w' later ih =>
      refine ih ?_
      obtain ⟨g, hx⟩ := hended
      cases hw : s.workers[w']? with
      | none =>
          rw [step_of_none hw]
          exact ⟨g, hx⟩
      | some x =>
          by_cases hww : w' = w
          · subst w'
            cases hx.symm.trans hw
            refine ⟨g, ?_⟩
            rw [step_of_some hw rfl]
            exact List.getElem?_set_self (List.getElem?_eq_some_iff.1 hw).1
          · refine ⟨g, ?_⟩
            rw [step_of_some hw rfl]
            exact (List.getElem?_set_ne hww).trans hx

end QueryLoad

/-- Every answer of a cache to the query of a window passes its check. -/
theorem run_queryAndVerify (c : Cache) (g : Generator) (min : Binary64) :
    (Work.queryAndVerify min).run.run (Service.withGenerator Cache.service) (c, g) =
      (.ok (c.store.query (.salary min (min + salaryStep))), c, g) := by
  change Program.run _ (ExceptT.bindCont _ (.ok (c.store.query (.salary min (min + salaryStep)))))
    (c, g) = _
  simp only [ExceptT.bindCont, Work.find?_eq_none_of_query]
  rfl

open QueryLoad (after)

/-- What the workers and their cache show after some steps. -/
structure QueryData (settings : Settings) (config : Config) (tasks : List (QueryTask × Generator))
    (schedule : List Nat) : Prop where
  /-- The cache holds the records of indexes in range. -/
  records : ∀ k v, (after settings config tasks schedule).cache.store.get k = some v →
    k < config.range ∧ v = .record (.forIndex k)
  /-- A test that has ended has completed. -/
  tests : ∀ (w : Nat) t g result, tasks[w]? = some (t, g) → t = .rangeQuery ∨ t = .rangeQueryPut →
    (after settings config tasks schedule).Ended w result → result = .ok .completed
  /-- The check of a window takes every answer of the cache. -/
  verified : ∀ min g, ((Work.queryAndVerify min).run.run (Service.withGenerator Cache.service)
    ((after settings config tasks schedule).cache, g)).1 =
      .ok ((after settings config tasks schedule).cache.store.query
        (.salary min (min + salaryStep)))
  /-- No worker of a population fails, however many there are that can be counted. -/
  population : ∀ (w : Nat) worker workers g result, workers ≤ 2 ^ 63 →
    tasks[w]? = some (.populate worker workers, g) →
    (after settings config tasks schedule).Ended w result → result = .ok .completed
  /-- Once a population is complete, just the keys below the range are there from then on. -/
  populated : ∀ earlier later workers, schedule = earlier ++ later → 0 < workers →
    (after settings config tasks earlier).Populated tasks workers →
    ∀ k, ((after settings config tasks schedule).cache.store.get k).isSome ↔ k < config.range

theorem range_of_validate {config : Config} (h : config.validate = .ok ()) :
    2 ≤ config.range.toNat ∧ config.range.toNat < 2 ^ 63 := by
  unfold Config.validate at h
  split at h
  · cases h
  · split at h
    · cases h
    · split at h
      · cases h
      · omega

/-- Whatever the workers of the query workloads do, and in whatever order, they keep the records
that were put, and none of their tests fails. -/
theorem queryData_run (settings : Settings) (config : Config) (hconfig : config.validate = .ok ())
    (tasks : List (QueryTask × Generator)) (schedule : List Nat) :
    QueryData settings config tasks schedule := by
  obtain ⟨htwo, hbound⟩ := range_of_validate hconfig
  have hrange : 0 < config.range := by
    rw [UInt64.lt_iff_toNat_lt]
    exact Nat.lt_of_lt_of_le Nat.zero_lt_two htwo
  have hsafe := (QueryLoad.safe_start settings hrange tasks).run schedule
  refine ⟨hsafe.records, ?tests, fun min g => ?verified, ?population, ?populated⟩
  case tests =>
    intro w t g result ht htest hended
    obtain ⟨stored, -, hends⟩ := hsafe.ends ht hended
    rcases htest with rfl | rfl
    · exact hends
    · exact hends
  case verified => rw [run_queryAndVerify]
  case population =>
    intro w worker workers g result hworkers ht hended
    obtain ⟨stored, -, hok, -⟩ := hsafe.ends ht hended
    exact hok (by omega)
  case populated =>
    rintro earlier later workers rfl hworkers hdone
    refine hsafe.populated hworkers fun worker hworker => ?_
    obtain ⟨w, g, ht, hended⟩ := hdone worker hworker
    refine ⟨w, g, ht, ?_⟩
    rw [QueryLoad.run_append]
    exact hended.run later

/-- Two workers populate an indexed cache while it is queried. -/
theorem queryData_run_indexed :
    ({ range := 3, batch := 1 } : Config).validate = .ok () ∧
      QueryData { name := queryCache, indexed := true } { range := 3, batch := 1 }
        [(.populate 0 2, .seeded 1), (.rangeQueryPut, .seeded 2), (.populate 1 2, .seeded 3)]
        [0, 2, 1, 1, 0] :=
  ⟨by decide, queryData_run _ _ (by decide) _ _⟩

end CacheBench
