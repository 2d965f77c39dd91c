import CacheBench.Cache.Scripted
import CacheBench.Proofs.CrewRuns
import CacheBench.Proofs.QueryData
import Mathlib.Data.List.Nodup
import Mathlib.Data.List.Perm.Subperm

/-!
# Work under a valid configuration

`Work.SafeAfter` goes through a piece of work request by request: what it stores fits the range, and
it panics only when the cache does. A valid configuration makes all units of work safe in this sense,
and the workers of a population too.
-/

namespace CacheBench

open Std (TreeMap)

def Request.Stores (k : Key) (v : Value) : Request → Prop
  | .put k' v' | .txPut _ k' v' => k' = k ∧ v' = v
  | .putAll b => b[k]? = some v
  | _ => False

/-- The key is in range, and a whole number that is stored there is the key itself. -/
def Config.Storable (config : Config) (k : Key) (v : Value) : Prop :=
  k < config.range ∧ ∀ n, v = .int n → n.toInt = k.toNat

def Panicked (xs : List (Exchange (Fault CacheError))) (text : Option String) : Prop :=
  ∃ x ∈ xs, x.FailsWith (.panic text)

theorem Panicked.append {xs : List (Exchange (Fault CacheError))} {text : Option String}
    (h : Panicked xs text) (ys : List (Exchange (Fault CacheError))) :
    Panicked (xs ++ ys) text := by
  obtain ⟨x, hx, hfail⟩ := h
  exact ⟨x, List.mem_append_left ys hx, hfail⟩

/-- What a valid configuration lets a unit of work ask. A transaction is dropped only when the cache
has panicked. -/
structure Asked (config : Config) (xs : List (Exchange (Fault CacheError))) : Prop where
  stores : ∀ x ∈ xs, ∀ k v, x.request.Stores k v → config.Storable k v
  batches : ∀ x ∈ xs, ∀ b, x.request = .putAll b → b.size = config.batch
  drops : ∀ x ∈ xs, ∀ t, x.request = .drop t → ∃ text, Panicked xs text

/-- A whole run of safe work. If it ends in a panic, that is one of the cache. -/
structure Sound {α : Type} (config : Config) (xs : List (Exchange (Fault CacheError)))
    (x : Except (Fault WorkError) α) : Prop extends Asked config xs where
  panics : ∀ text, x = .error (.panic text) → Panicked xs text

/-- The request stores nothing that is out of range, and drops nothing. -/
structure Request.Fits (config : Config) (r : Request) : Prop where
  stores : ∀ k v, r.Stores k v → config.Storable k v
  batches : ∀ b, r = .putAll b → b.size = config.batch
  keeps : ∀ t, r ≠ .drop t

namespace Asked

variable {config : Config} {xs : List (Exchange (Fault CacheError))}

theorem nil : Asked config [] :=
  ⟨List.forall_mem_nil _, List.forall_mem_nil _, List.forall_mem_nil _⟩

theorem concat (h : Asked config xs) {r : Request} (y : Response r)
    (hstores : ∀ k v, r.Stores k v → config.Storable k v)
    (hbatches : ∀ b, r = .putAll b → b.size = config.batch)
    (hdrops : ∀ t, r = .drop t → ∃ text, Panicked xs text) : Asked config (xs ++ [⟨r, y⟩]) := by
  have hcases : ∀ x ∈ xs ++ [⟨r, y⟩], x ∈ xs ∨ x = ⟨r, y⟩ := fun x hx =>
    (List.mem_append.1 hx).imp id List.mem_singleton.1
  refine ⟨fun x hx => ?_, fun x hx => ?_, fun x hx t ht => ?_⟩
  · rcases hcases x hx with hx | rfl
    · exact h.stores x hx
    · exact hstores
  · rcases hcases x hx with hx | rfl
    · exact h.batches x hx
    · exact hbatches
  · have hpanicked : ∃ text, Panicked xs text := by
      rcases hcases x hx with hx | rfl
      · exact h.drops x hx t ht
      · exact hdrops t ht
    obtain ⟨text, htext⟩ := hpanicked
    exact ⟨text, htext.append _⟩

theorem fits (h : Asked config xs) {r : Request} (hr : r.Fits config) (y : Response r) :
    Asked config (xs ++ [⟨r, y⟩]) :=
  h.concat y hr.stores hr.batches fun t ht => (hr.keeps t ht).elim

end Asked

namespace Request

variable {config : Config}

theorem fits_of_not_stores (r : Request) (hr : ∀ k v, ¬ r.Stores k v) (hbatch : ∀ b, r ≠ .putAll b)
    (hkeeps : ∀ t, r ≠ .drop t) : r.Fits config :=
  ⟨fun k v h => (hr k v h).elim, fun b h => (hbatch b h).elim, hkeeps⟩

theorem fits_put {k : Key} {v : Value} (h : config.Storable k v) : (put k v).Fits config := by
  refine ⟨?_, nofun, nofun⟩
  rintro _ _ ⟨rfl, rfl⟩
  exact h

theorem fits_txPut {t : TxId} {k : Key} {v : Value} (h : config.Storable k v) :
    (txPut t k v).Fits config := by
  refine ⟨?_, nofun, nofun⟩
  rintro _ _ ⟨rfl, rfl⟩
  exact h

theorem fits_putAll {b : Batch} (h : ∀ k v, b[k]? = some v → config.Storable k v)
    (hsize : b.size = config.batch) : (putAll b).Fits config := by
  refine ⟨h, ?_, nofun⟩
  rintro _ ⟨rfl⟩
  exact hsize

end Request

theorem toInt_toInt64 {k : Key} (h : k.toNat < 2 ^ 63) : k.toInt64.toInt = k.toNat := by
  change k.toBitVec.toInt = k.toBitVec.toNat
  refine BitVec.toInt_eq_toNat_of_lt ?_
  rw [UInt64.toNat_toBitVec]
  omega

namespace Config

variable {config : Config}

theorem storable_sample {k : Key} (hk : k < config.range) : config.Storable k (.sample k) :=
  ⟨hk, nofun⟩

theorem storable_record {k : Key} {r : Record} (hk : k < config.range) :
    config.Storable k (.record r) := ⟨hk, nofun⟩

theorem storable_of_keysBelow (hrange : config.range.toNat < 2 ^ 63) {b : Batch}
    (hb : Work.KeysBelow config.range b) {k : Key} {v : Value} (hv : b[k]? = some v) :
    config.Storable k v := by
  obtain ⟨hk, rfl⟩ := hb k v hv
  refine ⟨hk, fun n hn => ?_⟩
  cases hn
  exact toInt_toInt64 ((UInt64.lt_iff_toNat_lt.1 hk).trans hrange)

end Config

namespace Work

/-- Safe work, of which these requests have been made before. -/
def SafeAfter {α : Type} (config : Config) (past : List (Exchange (Fault CacheError)))
    (w : Work α) : Prop :=
  Asked config past → ∀ xs x, w.Runs xs x → Sound config (past ++ xs) x

namespace SafeAfter

variable {α β : Type} {config : Config} {past : List (Exchange (Fault CacheError))}

theorem pure (a : α) : SafeAfter config past (Pure.pure a) := by
  rintro hpast xs x ⟨rfl, rfl⟩
  rw [List.append_nil]
  exact ⟨hpast, nofun⟩

theorem throw_error (e : WorkError) : SafeAfter config past (throw (.error e) : Work α) := by
  rintro hpast xs x ⟨rfl, rfl⟩
  rw [List.append_nil]
  exact ⟨hpast, nofun⟩

theorem throw_panic {text : Option String} (h : Panicked past text) :
    SafeAfter config past (throw (.panic text) : Work α) := by
  rintro hpast xs x ⟨rfl, rfl⟩
  rw [List.append_nil]
  exact ⟨hpast, fun text' heq => by cases heq; exact h⟩

theorem sound_of_failed {r : Request} {e : Fault CacheError}
    (h : Asked config (past ++ [⟨r, .error e⟩])) :
    Sound config (past ++ [⟨r, .error e⟩]) (.error (e.map .cache) : Except (Fault WorkError) α) := by
  refine ⟨h, fun text heq => ?_⟩
  cases e with
  | error e => cases heq
  | panic text' =>
      cases heq
      exact ⟨_, List.mem_append_right _ List.mem_cons_self, rfl⟩

theorem ask {r : Request} (hr : r.Fits config) {f : r.Answer → Work β}
    (hf : ∀ a, SafeAfter config (past ++ [⟨r, .ok a⟩]) (f a)) :
    SafeAfter config past (Work.ask r >>= f) := by
  intro hpast xs x h
  rw [runs_ask_bind_iff] at h
  rcases h with ⟨e, rfl, rfl⟩ | ⟨a, ys, rfl, h⟩
  · exact sound_of_failed (hpast.fits hr _)
  · rw [List.append_cons]
    exact hf a (hpast.fits hr _) ys x h

theorem ask_last {r : Request} (hr : r.Fits config) : SafeAfter config past (Work.ask r) := by
  intro hpast xs x h
  obtain ⟨e | a, rfl, rfl⟩ := runs_ask_iff.1 h
  · exact sound_of_failed (hpast.fits hr _)
  · exact ⟨hpast.fits hr _, nofun⟩

theorem between {low high : UInt64} (hlt : low < high) {f : UInt64 → Work β}
    (hf : ∀ n, low ≤ n → n < high → SafeAfter config past (f n)) :
    SafeAfter config past (Work.between low high >>= f) := by
  intro hpast xs x h
  obtain ⟨n, hlow, hhigh, h⟩ := (runs_between_bind_iff hlt).1 h
  exact hf n hlow hhigh hpast xs x h

theorem attempt {w : Work α} {f : Except (Fault WorkError) α → Work β}
    (hw : SafeAfter config past w)
    (hf : ∀ ys y, Sound config (past ++ ys) y → SafeAfter config (past ++ ys) (f y)) :
    SafeAfter config past (Work.attempt w >>= f) := by
  intro hpast xs x h
  rw [runs_attempt_bind_iff] at h
  obtain ⟨ys, zs, y, rfl, hy, h⟩ := h
  have hsound := hw hpast ys y hy
  rw [← List.append_assoc]
  exact hf ys y hsound hsound.toAsked zs x h

/-- A transaction is dropped while a panic of the cache goes on. -/
theorem drop {t : TxId} {text : Option String} (h : Panicked past text) :
    SafeAfter config past (do Work.ask (.drop t); throw (.panic text) : Work α) := by
  intro hpast xs x hruns
  have hasked : ∀ y, Asked config (past ++ [⟨.drop t, y⟩]) := fun y =>
    hpast.concat y nofun nofun fun _ _ => ⟨text, h⟩
  rw [runs_ask_bind_iff] at hruns
  rcases hruns with ⟨e, rfl, rfl⟩ | ⟨a, ys, rfl, hruns⟩
  · exact sound_of_failed (hasked _)
  · rw [List.append_cons]
    exact throw_panic (h.append _) (hasked _) ys x hruns

theorem abandon {t : TxId} {e : WorkError} : SafeAfter config past (Work.abandon t e : Work α) := by
  refine .attempt (.ask_last (Request.fits_of_not_stores (.rollback t) nofun nofun nofun)) fun ys y hy => ?_
  rcases y with (e' | text) | ⟨⟩
  · exact throw_error e
  · exact throw_panic (hy.panics text rfl)
  · exact throw_error e

theorem inTransaction {body : TxId → Work α}
    (hbody : ∀ t past, SafeAfter config past (body t)) :
    SafeAfter config past (Work.inTransaction body) := by
  refine .ask (Request.fits_of_not_stores .begin nofun nofun nofun) fun t => ?_
  refine .attempt (hbody t _) fun ys y hy => ?_
  rcases y with (e | text) | a
  · exact abandon
  · exact drop (hy.panics text rfl)
  · exact .ask (Request.fits_of_not_stores (.commit t) nofun nofun nofun) fun _ => .pure a

theorem txPutAll {t : TxId} {b : Batch} (hb : ∀ k v, b[k]? = some v → config.Storable k v) :
    SafeAfter config past (Work.txPutAll t b) := by
  rw [Work.txPutAll]
  have hall : ∀ p ∈ b.toList, config.Storable p.1 p.2 := fun p hp =>
    hb p.1 p.2 (TreeMap.mem_toList_iff_getElem?_eq_some.1 hp)
  generalize b.toList = pairs at hall
  induction pairs generalizing past with
  | nil => exact pure ()
  | cons p pairs ih =>
      obtain ⟨hp, hpairs⟩ := List.forall_mem_cons.1 hall
      exact ask (Request.fits_txPut (t := t) hp) fun _ => ih hpairs

theorem writeAbsent (hrange : 2 ≤ config.range.toNat) :
    SafeAfter config past (Work.writeAbsent config.range) := by
  have hhalf := halves_of_two_le hrange
  refine inTransaction fun t past => ?_
  have hput : ∀ past, ∀ k < config.range,
      SafeAfter config past (do Work.ask (.txPut t k (.sample k)); return k) :=
    fun _ k hk => ask (Request.fits_txPut (Config.storable_sample hk)) fun _ => pure k
  refine between hhalf.1 fun k _ hk => ?_
  refine ask (Request.fits_of_not_stores (.txGet t k) nofun nofun nofun) fun seen => ?_
  split
  · exact between hhalf.2 fun k _ hk => hput _ k hk
  · exact hput _ k (UInt64.lt_trans hk hhalf.2)

theorem putInTransaction (hrange : 0 < config.range) :
    SafeAfter config past (Workload.putInTransaction config) := by
  refine between hrange fun k _ hk => ?_
  refine ask (Request.fits_of_not_stores .begin nofun nofun nofun) fun t => ?_
  refine attempt (attempt (ask_last (Request.fits_txPut (Config.storable_sample hk)))
    fun ys y hy => ?_) fun ys y hy => ?_
  · rcases y with (e | text) | ⟨⟩
    · exact abandon
    · exact drop (hy.panics text rfl)
    · exact ask_last (Request.fits_of_not_stores (.commit t) nofun nofun nofun)
  · rcases y with (e | text) | ⟨⟩
    · cases hpolicy : config.failurePolicy with
      | propagate => exact throw_error e
      | log => exact pure _
    · exact throw_panic (hy.panics text rfl)
    · exact pure _

theorem windowStart {f : Binary64 → Work β} {range : UInt64}
    (hf : ∀ min, SafeAfter config past (f min)) :
    SafeAfter config past (Work.windowStart range >>= f) := by
  rintro hpast xs x ⟨y, -, h⟩
  exact hf _ hpast xs x h

theorem queryAndVerify {min : Binary64} : SafeAfter config past (Work.queryAndVerify min) := by
  refine ask (Request.fits_of_not_stores (.query _) nofun nofun nofun) fun records => ?_
  split
  · exact throw_error _
  · exact pure _

theorem done {w : Work α} (h : SafeAfter config past w) :
    SafeAfter config past (do let _ ← w; return Outcome.completed) := by
  intro hpast xs x hruns
  obtain ⟨y, hy, rfl⟩ := runs_bind_pure_iff.1 hruns
  have hsound := h hpast xs y hy
  refine ⟨hsound.toAsked, fun text heq => hsound.panics text ?_⟩
  cases y with
  | ok a => cases heq
  | error e =>
      cases heq
      rfl

theorem populateFrom (hrange : config.range.toNat < 2 ^ 63) {stride : Nat} (hstride : stride ≤ 2 ^ 63)
    (i : Nat) : SafeAfter config past (CacheBench.populateFrom config.range.toNat stride i) := by
  induction h : config.range.toNat - i using Nat.strong_induction_on generalizing i past with
  | _ left ih =>
      rw [CacheBench.populateFrom]
      split
      · rename_i hi
        have hindex : UInt64.ofNat i < config.range := by
          rw [UInt64.lt_iff_toNat_lt, UInt64.toNat_ofNat']
          exact (Nat.mod_le _ _).trans_lt hi.2
        refine ask (Request.fits_put (Config.storable_record hindex)) fun _ => ?_
        rw [if_pos (by omega)]
        exact ih _ (by omega) (i + stride) rfl
      · exact pure ()

end SafeAfter

/-! ## Drawing a batch -/

/-- As long as keys are missing there is one to be drawn. -/
theorem exists_key_of_size_lt {range : Key} {b : Batch} (h : b.size < range.toNat) :
    ∃ k < range, b[k]? = none := by
  by_contra hall
  have hsub : (List.range range.toNat).map UInt64.ofNat ⊆ b.keys := by
    intro k hk
    obtain ⟨n, hn, rfl⟩ := List.mem_map.1 hk
    have hlt := List.mem_range.1 hn
    rw [TreeMap.mem_keys]
    by_contra hnot
    refine hall ⟨.ofNat n, ?_, TreeMap.getElem?_eq_none hnot⟩
    rw [UInt64.lt_iff_toNat_lt, UInt64.toNat_ofNat']
    exact (Nat.mod_le _ _).trans_lt hlt
  have hnodup : ((List.range range.toNat).map UInt64.ofNat).Nodup := by
    refine List.Nodup.map_on (fun m hm n hn heq => ?_) List.nodup_range
    have hbound := range.toNat_lt
    have hm := List.mem_range.1 hm
    have hn := List.mem_range.1 hn
    have htoNat := congrArg UInt64.toNat heq
    rwa [UInt64.toNat_ofNat', UInt64.toNat_ofNat', Nat.mod_eq_of_lt (by omega),
      Nat.mod_eq_of_lt (by omega)] at htoNat
  have hle := (List.subperm_of_subset hnodup hsub).length_le
  rw [List.length_map, List.length_range, TreeMap.length_keys] at hle
  omega

/-- Some draws fill a batch that is not larger than the range. -/
theorem exists_runs_drawKeys {count : Nat} {range : Key} (hcount : count ≤ range.toNat) {fuel : Nat}
    {b : Batch} (hfuel : count ≤ b.size + fuel) :
    ∃ b', (drawKeys count range fuel b).Runs [] (.ok b') := by
  induction fuel generalizing b with
  | zero =>
      rw [drawKeys, if_neg (by omega)]
      exact ⟨b, rfl, rfl⟩
  | succ fuel ih =>
      rw [drawKeys]
      split
      · have hroom : b.size < range.toNat := by omega
        obtain ⟨k, hk, hnone⟩ := exists_key_of_size_lt hroom
        have hsize : (b.insert k (.int k.toInt64)).size = b.size + 1 := by
          rw [TreeMap.size_insert, if_neg]
          rw [TreeMap.contains_eq_isSome_getElem?, hnone]
          exact Bool.false_ne_true
        obtain ⟨b', hb'⟩ := ih (b := b.insert k (.int k.toInt64)) (by omega)
        have hrange : 0 < range := UInt64.lt_of_le_of_lt (UInt64.zero_le) hk
        exact ⟨b', (runs_between_bind_iff hrange).2 ⟨k, UInt64.zero_le, hk, hb'⟩⟩
      · exact ⟨b, rfl, rfl⟩

end Work

/-! ## Valid configurations -/

theorem batch_of_validate {config : Config} (h : config.validate = .ok ()) :
    config.batch ≤ config.range.toNat := by
  unfold Config.validate at h
  split_ifs at h
  omega

namespace Workload

variable {config : Config}

/-- A unit of work runs out of draws before it has asked for anything, or is safe. -/
theorem sound_of_runs_test (hconfig : config.validate = .ok ()) {w : Workload}
    {xs : List (Exchange (Fault CacheError))} {x : Except (Fault WorkError) Outcome}
    (h : (w.test config).Runs xs x) : (xs = [] ∧ x = .error (.panic none)) ∨ Sound config xs x := by
  obtain ⟨htwo, hbound⟩ := range_of_validate hconfig
  have hrange : 0 < config.range := UInt64.lt_iff_toNat_lt.2 (Nat.zero_lt_of_lt htwo)
  have hbatch : ∀ {ys y} {f : Batch → Work Outcome}, (∀ b, b.size = config.batch →
      (∀ k v, b[k]? = some v → config.Storable k v) → Work.SafeAfter config [] (f b)) →
      (Work.distinctKeys config.batch config.range >>= f).Runs ys y →
      (ys = [] ∧ y = .error (.panic none)) ∨ Sound config ys y := by
    intro ys y f hf hruns
    rw [Work.runs_bind_iff] at hruns
    rcases hruns with ⟨e, hb, rfl⟩ | ⟨us, zs, b, rfl, hb, hruns⟩
    · obtain ⟨rfl, hb | ⟨_, hb, -⟩⟩ := Work.runs_distinctKeys hrange hb
      · cases hb
        exact .inl ⟨rfl, rfl⟩
      · cases hb
    · obtain ⟨rfl, hb | ⟨_, hb, hsize, hkeys⟩⟩ := Work.runs_distinctKeys hrange hb
      · cases hb
      · cases hb
        exact .inr (hf b hsize (fun k v => Config.storable_of_keysBelow hbound hkeys) .nil zs y hruns)
  have hsafe : ∀ {w : Work Outcome}, w.SafeAfter config [] → w.Runs xs x → Sound config xs x :=
    fun hw hruns => hw .nil xs x hruns
  cases w with
  | bulkPut =>
      refine hbatch (fun b hsize hb => ?_) h
      exact .ask (Request.fits_putAll hb hsize) fun _ => .pure _
  | bulkPutTx =>
      refine hbatch (fun b _ hb => ?_) h
      exact .done (.inTransaction fun t past => .txPutAll hb)
  | putGetTx => exact .inr (hsafe (.done (.writeAbsent htwo)) h)
  | putTx => exact .inr (hsafe (.putInTransaction hrange) h)
  | rangeQuery =>
      exact .inr (hsafe (.windowStart fun min => .done .queryAndVerify) h)
  | rangeQueryPut =>
      obtain ⟨heads, -, h⟩ := h
      cases heads with
      | true => exact .inr (hsafe (.windowStart fun min => .done .queryAndVerify) h)
      | false =>
          refine .inr (hsafe (.between hrange fun i _ hi => ?_) h)
          exact .ask (Request.fits_put (Config.storable_record hi)) fun _ => .pure _

end Workload

namespace Population

variable {σ : Type} {env : Environment σ} {config : Config} {workers : Nat}

/-- What the workers of a population ask and end with, in any schedule. -/
theorem sound_of_ended (hconfig : config.validate = .ok ()) (henv : env.Admits)
    (hworkers : workers ≤ 2 ^ 63) {s : σ} {ws : List Nat} {w : Nat}
    {x : Except (Fault WorkError) Unit}
    (h : ((crew config.range workers s).run env ws).Ended w x) :
    Sound config (Crew.own w ((crew config.range workers s).log env ws)) x := by
  have hfollows := Crew.follows_run henv threadName workers
    (CacheBench.populateFrom config.range.toNat workers) s ws
  exact Work.SafeAfter.populateFrom (range_of_validate hconfig).2 hworkers w .nil _ x
    (hfollows.ended w x h)

theorem stores_of_mem_log (hconfig : config.validate = .ok ()) (henv : env.Admits)
    (hworkers : workers ≤ 2 ^ 63) {s : σ} {ws : List Nat} {w : Nat}
    {x : Exchange (Fault CacheError)} (hx : (w, x) ∈ (crew config.range workers s).log env ws)
    {k : Key} {v : Value} (hstores : x.request.Stores k v) : config.Storable k v := by
  have hfollows := Crew.follows_run henv threadName workers
    (CacheBench.populateFrom config.range.toNat workers) s ws
  obtain ⟨ys, a, hruns, -⟩ := hfollows.exists_runs hx
  have hsound := Work.SafeAfter.populateFrom (range_of_validate hconfig).2 hworkers w .nil _ a hruns
  have hmem := List.mem_append_left ys (Crew.mem_own.2 hx)
  exact hsound.stores x hmem k v hstores

/-- To set a workload up is to run its population in one of the schedules. -/
theorem exists_schedule_setUp (w : Workload) (workers : Nat) (s : σ) : ∃ schedule,
    (w.setUp env config workers s).2 = ((crew config.range workers s).run env schedule).state ∧
    (w.populates → 0 < workers → (w.setUp env config workers s).1 =
      outcome workers ((crew config.range workers s).run env schedule).report) := by
  rw [Workload.setUp]
  split
  · rw [populate]
    split
    · exact ⟨[], rfl, fun _ hpos => by omega⟩
    · obtain ⟨schedule, hschedule⟩ :=
        Crew.exists_run_eq_finish env (crew config.range workers s)
      exact ⟨schedule, by rw [hschedule], fun _ _ => by rw [hschedule]⟩
  · rename_i hnot
    exact ⟨[], rfl, fun hpopulates => (hnot hpopulates).elim⟩

end Population

/-- What units of work and populations do under a configuration, whatever answers them. All that
they store fits the range, and a batch can be drawn. They do not panic by themselves: not because of
an empty interval to draw from, and not because the next index of a population would be too large.
Nor do they hide such a panic, as only a panic of the cache makes them drop a transaction. To set a
workload up is to let the workers of its population run in some schedule. -/
structure SafeWork {σ : Type} (env : Environment σ) (config : Config) : Prop where
  stores : ∀ (w : Workload) (s : σ), ∀ x ∈ (w.test config).run.trace env s,
    ∀ k v, x.request.Stores k v → config.Storable k v
  batches : ∀ (w : Workload) (s : σ), ∀ x ∈ (w.test config).run.trace env s,
    ∀ b, x.request = .putAll b → b.size = config.batch
  panics : ∀ (w : Workload) (s : σ) text, ((w.test config).run.run env s).1 =
    .error (.panic (some text)) → Panicked ((w.test config).run.trace env s) (some text)
  drops : ∀ (w : Workload) (s : σ), ∀ x ∈ (w.test config).run.trace env s,
    ∀ t, x.request = .drop t → ∃ text, Panicked ((w.test config).run.trace env s) text
  keysLeft : ∀ b : Batch, b.size < config.batch → ∃ k < config.range, b[k]? = none
  drawn : ∃ b, (Work.distinctKeys config.batch config.range).Runs [] (.ok b)
  populationStores : ∀ workers ≤ 2 ^ 63, ∀ (s : σ) (schedule : List Nat),
    ∀ x ∈ (Population.crew config.range workers s).log env schedule,
      ∀ k v, x.2.request.Stores k v → config.Storable k v
  populationPanics : ∀ workers ≤ 2 ^ 63, ∀ (s : σ) (schedule : List Nat) (w : Nat) text,
    ((Population.crew config.range workers s).run env schedule).Ended w (.error (.panic text)) →
      Panicked (Crew.own w ((Population.crew config.range workers s).log env schedule)) text
  setUp : ∀ (w : Workload) workers (s : σ), ∃ schedule,
    (w.setUp env config workers s).2 =
      ((Population.crew config.range workers s).run env schedule).state ∧
    (w.populates → 0 < workers → (w.setUp env config workers s).1 = Population.outcome workers
      ((Population.crew config.range workers s).run env schedule).report)

/-- A valid configuration is safe for every workload, whatever the cache does and whatever is drawn. -/
theorem safeWork_of_validate {config : Config} (hconfig : config.validate = .ok ()) {σ : Type}
    (env : Environment σ) (henv : env.Admits) : SafeWork env config := by
  have htest := fun (w : Workload) (s : σ) =>
    w.sound_of_runs_test hconfig (Program.runs_trace henv (w.test config).run s)
  have hasked : ∀ (w : Workload) s, Asked config ((w.test config).run.trace env s) := by
    intro w s
    rcases htest w s with ⟨hnil, -⟩ | hsound
    · rw [hnil]
      exact .nil
    · exact hsound.toAsked
  have hbatch := batch_of_validate hconfig
  refine ⟨fun w s => (hasked w s).stores, fun w s => (hasked w s).batches, ?_,
    fun w s => (hasked w s).drops, ?_, ?_, ?_, ?_, ?_⟩
  · intro w s text htext
    rcases htest w s with ⟨-, hnone⟩ | hsound
    · cases hnone.symm.trans htext
    · exact hsound.panics text htext
  · exact fun b hb => Work.exists_key_of_size_lt (hb.trans_le hbatch)
  · refine Work.exists_runs_drawKeys hbatch ?_
    have hbound := config.range.toNat_lt
    simp only [Work.enoughDraws]
    omega
  · exact fun workers hworkers s ws x hx k v =>
      Population.stores_of_mem_log hconfig henv hworkers hx
  · exact fun workers hworkers s ws w text hended =>
      (Population.sound_of_ended hconfig henv hworkers hended).panics text rfl
  · exact fun w workers s => Population.exists_schedule_setUp w workers s

/-- The smallest range, with all of its keys in a batch. -/
theorem safeWork_of_validate_two :
    SafeWork (Service.withGenerator Script.service) { range := 2, batch := 2 } :=
  safeWork_of_validate rfl _ (Service.admits_withGenerator _)

end CacheBench
