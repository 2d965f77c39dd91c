import CacheBench.Generator
import CacheBench.Proofs.Locking

/-!
# Putting a batch in a transaction

`Work.txPutAll` puts the pairs of a batch one by one, in the order of their keys, and other callers
may make requests before each put. It goes through unless another transaction holds one of the
keys, and at the first such key it stops: the pairs before it are put and their keys locked, and
nothing else of the transaction has changed.
-/

namespace CacheBench

open Std (TreeMap)

namespace Work

theorem run_forM_txPut_cons {σ : Type} (env : Environment σ) (t : TxId) (k : Key) (v : Value)
    (pairs : List (Key × Value)) (s : σ) :
    (((k, v) :: pairs).forM fun (k, v) => ask (.txPut t k v)).run.run env s =
      match env.answer (.txPut t k v) s with
      | (.ok (), s') => (pairs.forM fun (k, v) => ask (.txPut t k v)).run.run env s'
      | (.error e, s') => (.error (e.map .cache), s') := by
  rw [List.forM, ExceptT.run_bind]
  change (Program.ask _ _).run env s = _
  rw [Program.run]
  rcases env.answer (.txPut t k v) s with ⟨x, s'⟩
  cases x <;> rfl

end Work

namespace Cache

/-- A cache with other callers: before it answers a request it takes the next requests of the
others. -/
def amongOthers : Service (Cache × List (List Request)) := fun r (c, meanwhile) =>
  let (x, c) := service r (c.run (meanwhile.headD [])).2
  (x, (c, meanwhile.tail))

variable {c : Cache} {meanwhile : List (List Request)} {g : Generator} {t : TxId} {tx : Transaction}

theorem exists_run_amongOthers {α : Type} (p : Program α) (c : Cache)
    (meanwhile : List (List Request)) (g : Generator) :
    ∃ rs, (p.run amongOthers.withGenerator ((c, meanwhile), g)).2.1.1 = (c.run rs).2 := by
  induction p generalizing c meanwhile g with
  | done a => exact ⟨[], rfl⟩
  | ask r next ih =>
      obtain ⟨rs, hrs⟩ := ih (amongOthers r (c, meanwhile)).1 (amongOthers r (c, meanwhile)).2.1
        meanwhile.tail g
      refine ⟨meanwhile.headD [] ++ r :: rs, hrs.trans ?_⟩
      rw [run_append]
      rfl
  | draw d next ih => exact ih _ c meanwhile _

theorem live_run_of_others (hn : c.Numbered) (hl : c.live[t]? = some tx) {rs : List Request}
    (hrs : ∀ r ∈ rs, r.tx? ≠ some t) : (c.run rs).2.live[t]? = some tx := by
  induction rs generalizing c with
  | nil => exact hl
  | cons r rs ih =>
      have hne : t ≠ c.store.nextTx := Nat.ne_of_lt (hn t tx hl).2
      have hstep := live_step_of_other (hrs r (by simp)) fun _ => hne
      exact ih (hn.step r) (hstep.trans hl) fun r' hr' => hrs r' (by simp [hr'])

/-- A put among others meets the cache that the others have left, and is answered there. -/
theorem answer_txPut_amongOthers (hn : c.Numbered) (hl : c.live[t]? = some tx)
    (hothers : ∀ rs ∈ meanwhile, ∀ r ∈ rs, r.tx? ≠ some t) (k : Key) (v : Value) :
    ∃ c₁ : Cache, (∃ rs, c₁ = (c.run rs).2) ∧ c₁.live[t]? = some tx ∧
      amongOthers.withGenerator.answer (.txPut t k v) ((c, meanwhile), g) =
        ((c₁.step (.txPut t k v)).1.mapError .error,
          (((c₁.step (.txPut t k v)).2, meanwhile.tail), g)) := by
  refine ⟨(c.run (meanwhile.headD [])).2, ⟨_, rfl⟩, ?_, rfl⟩
  apply live_run_of_others hn hl
  cases meanwhile with
  | nil => simp
  | cons rs meanwhile => exact hothers rs (by simp)

/-- The transaction `t` has put the pairs `done` of `pairs`. That is all of them, or else another
transaction owns the next key and the work has failed there. -/
structure PutsUpTo (c : Cache) (t : TxId) (tx : Transaction) (pairs done : List (Key × Value))
    (result : Except (Fault WorkError) Unit) (c' : Cache) (tx' : Transaction) : Prop where
  live : c'.live[t]? = some tx'
  writes : tx'.writes = tx.writes.insertMany done
  held : c.store.settings.concurrency = .pessimistic →
    ∀ a, a ∈ tx'.held ↔ a ∈ tx.held ∨ a ∈ done.map Prod.fst
  result : (result = .ok () ∧ done = pairs) ∨
    ∃ k v rest, pairs = done ++ (k, v) :: rest ∧
      c.store.settings.concurrency = .pessimistic ∧
      result = .error (.error (.cache (.lockTimeout k c.store.settings.lockTimeout))) ∧
      ∃ owner, owner ≠ t ∧ c'.store.locks[k]? = some owner

theorem putsUpTo_of_run (pairs : List (Key × Value)) (hn : c.Numbered)
    (hl : c.live[t]? = some tx) (hothers : ∀ rs ∈ meanwhile, ∀ r ∈ rs, r.tx? ≠ some t) :
    let out := (pairs.forM fun (k, v) => Work.ask (.txPut t k v)).run.run
      amongOthers.withGenerator ((c, meanwhile), g)
    ∃ done tx', c.PutsUpTo t tx pairs done out.1 out.2.1.1 tx' := by
  induction pairs generalizing c meanwhile tx with
  | nil =>
      refine ⟨[], tx, hl, TreeMap.insertMany_nil.symm, ?_, .inl ⟨rfl, rfl⟩⟩
      intro _ a
      simp
  | cons p pairs ih =>
      obtain ⟨k, v⟩ := p
      obtain ⟨c₁, ⟨rs, rfl⟩, hl₁, hanswer⟩ := answer_txPut_amongOthers (g := g) hn hl hothers k v
      have hsettings : (c.run rs).2.store.settings = c.store.settings := by
        rw [← before_length, settings_before]
      have hn₁ : (c.run rs).2.Numbered := by
        rw [← before_length]
        exact numbered_before c rs hn _
      rw [Work.run_forM_txPut_cons, hanswer]
      cases hp : tx.put (c.run rs).2.store k v with
      | error e =>
          -- another transaction owns the key, and nothing has changed
          rw [step_txPut_of_error hl₁ hp]
          obtain ⟨hc, -, hlock, rfl⟩ := Transaction.put_eq_error_iff.1 hp
          obtain ⟨owner, hne, howner⟩ := Store.lock?_eq_none_iff.1 hlock
          rw [(hn₁ t tx hl₁).1] at hne
          rw [hsettings] at hc
          refine ⟨[], tx, hl₁, TreeMap.insertMany_nil.symm, fun _ a => by simp, .inr ?_⟩
          refine ⟨k, v, pairs, rfl, hc, ?_, owner, hne, howner⟩
          rw [hsettings]
          rfl
      | ok q =>
          -- the pair is put, and the others are put from there on
          obtain ⟨s, tx₁⟩ := q
          have hstep := step_txPut_of_ok hl₁ hp
          have hn₂ := hn₁.step (.txPut t k v)
          have hs := (c.run rs).2.settings_step (.txPut t k v)
          rw [hstep] at hn₂ hs ⊢
          rw [hsettings] at hs
          have hl₂ : ((c.run rs).2.live.insert t tx₁)[t]? = some tx₁ := TreeMap.getElem?_insert_self
          have hothers₂ : ∀ rs ∈ meanwhile.tail, ∀ r ∈ rs, r.tx? ≠ some t :=
            fun rs hrs => hothers rs (List.mem_of_mem_tail hrs)
          obtain ⟨done, tx', hputs⟩ := ih hn₂ hl₂ hothers₂
          refine ⟨(k, v) :: done, tx', hputs.live, ?_, ?_, ?_⟩
          · rw [hputs.writes, Transaction.put_writes hp, TreeMap.insertMany_cons]
          · intro hc a
            rw [hputs.held (by rwa [hs]), Transaction.mem_held_put (by rwa [hsettings]) hp]
            simp only [List.map_cons, List.mem_cons]
            tauto
          · rcases hputs.result with ⟨hok, hdone⟩ | ⟨k', v', rest, hpairs, hc, herr, howner⟩
            · exact .inl ⟨hok, by rw [hdone]⟩
            · rw [hs] at hc herr
              exact .inr ⟨k', v', rest, by rw [hpairs]; rfl, hc, herr, howner⟩

/-! ## The pairs before a key -/

section Before

variable {b : Batch} {done rest : List (Key × Value)} {k : Key} {v : Value}

theorem filter_lt_toList (h : b.toList = done ++ (k, v) :: rest) :
    b.toList.filter (fun p => p.1 < k) = done := by
  have hordered := b.ordered_keys_toList
  rw [h, List.pairwise_append] at hordered
  obtain ⟨-, hrest, hdone⟩ := hordered
  have hbefore : ∀ p ∈ done, decide (p.1 < k) = true := fun p hp =>
    decide_eq_true (Std.compare_eq_lt.1 (hdone p hp (k, v) (by simp)))
  have hafter : ∀ p ∈ (k, v) :: rest, ¬ decide (p.1 < k) = true := by
    intro p hp
    rw [decide_eq_true_eq, UInt64.not_lt]
    rcases List.mem_cons.1 hp with rfl | hp
    · exact UInt64.le_refl _
    · exact UInt64.le_of_lt (Std.compare_eq_lt.1 ((List.pairwise_cons.1 hrest).1 p hp))
  rw [h, List.filter_append, List.filter_eq_self.2 hbefore, List.filter_eq_nil_iff.2 hafter,
    List.append_nil]

theorem mem_map_fst_iff_lt (h : b.toList = done ++ (k, v) :: rest) (a : Key) :
    a ∈ done.map Prod.fst ↔ a ∈ b ∧ a < k := by
  rw [← filter_lt_toList h, ← TreeMap.mem_keys, ← TreeMap.map_fst_toList_eq_keys]
  simp only [List.mem_map, List.mem_filter, decide_eq_true_eq]
  constructor
  · rintro ⟨p, ⟨hp, hlt⟩, rfl⟩
    exact ⟨⟨p, hp, rfl⟩, hlt⟩
  · rintro ⟨⟨p, hp, rfl⟩, hlt⟩
    exact ⟨p, ⟨hp, hlt⟩, rfl⟩

end Before

/-- The transaction `t` was stopped at the key `k` of a batch, which another transaction owns. The
pairs with smaller keys are put and their keys locked. -/
structure StoppedAt (c : Cache) (t : TxId) (tx : Transaction) (b : Batch) (k : Key) (c' : Cache)
    (tx' : Transaction) : Prop where
  mem : k ∈ b
  live : c'.live[t]? = some tx'
  writes : tx'.writes = tx.writes.insertMany (b.toList.filter fun p => p.1 < k)
  held : ∀ a, a ∈ tx'.held ↔ a ∈ tx.held ∨ a ∈ b ∧ a < k
  locks : ∀ a : Key, c'.store.locks[a]? = some t ↔ c.store.locks[a]? = some t ∨ a ∈ b ∧ a < k
  owned : ∃ owner, owner ≠ t ∧ c'.store.locks[k]? = some owner

/-- Putting a batch among others fails at a key that another transaction owns, if at all. -/
theorem stoppedAt_of_txPutAll (hn : c.Numbered) (ho : c.LocksOwned) (hl : c.live[t]? = some tx)
    (hothers : ∀ rs ∈ meanwhile, ∀ r ∈ rs, r.tx? ≠ some t) {b : Batch} {e : Fault WorkError}
    {out : (Cache × List (List Request)) × Generator}
    (h : (Work.txPutAll t b).run.run amongOthers.withGenerator ((c, meanwhile), g) =
      (.error e, out)) :
    ∃ k tx', e = .error (.cache (.lockTimeout k c.store.settings.lockTimeout)) ∧
      c.StoppedAt t tx b k out.1.1 tx' := by
  obtain ⟨rs, hrs⟩ := exists_run_amongOthers (Work.txPutAll t b).run c meanwhile g
  obtain ⟨done, tx', hputs⟩ := putsUpTo_of_run (g := g) b.toList hn hl hothers
  have ho' : out.1.1.LocksOwned := by
    rw [h] at hrs
    rw [hrs, ← before_length]
    exact ho.before hn rs _
  unfold Work.txPutAll at h
  rw [h] at hputs
  rcases hputs.result with ⟨hok, -⟩ | ⟨k, v, rest, hpairs, hc, herr, howner⟩
  · cases hok
  have hmem : k ∈ b := by
    rw [← TreeMap.mem_keys, ← TreeMap.map_fst_toList_eq_keys, hpairs]
    simp
  have hheld : ∀ a, a ∈ tx'.held ↔ a ∈ tx.held ∨ a ∈ b ∧ a < k := by
    intro a
    rw [hputs.held hc, mem_map_fst_iff_lt hpairs]
  refine ⟨k, tx', Except.error.inj herr, hmem, hputs.live, ?_, hheld, ?_, howner⟩
  · rw [hputs.writes, filter_lt_toList hpairs]
  · intro a
    rw [ho' a t, ho a t]
    simp only [hputs.live, hl, Option.some.injEq, exists_eq_left', hheld]

/-- The other transaction comes by before the second put and takes the key `5`. -/
example (g : Generator) :
    ((Work.txPutAll 1 (Batch.ofList [(6, .int 1), (5, .int 2), (4, .int 3)])).run.run
      amongOthers.withGenerator
      ((((ofSettings lockingSettings).run [.begin, .begin]).2, [[], [.txPut 2 5 (.int 4)]]), g)).1 =
        .error (.error (.cache (.lockTimeout 5 defaultLockTimeout))) := rfl

end Cache

end CacheBench
