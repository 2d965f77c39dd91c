import CacheBench.Proofs.LockTable

/-!
# Locks that go later

`Cache.step` takes the locks of a transaction out of the table in the step that ends it. `Releasing`
is a cache that answers the end of a transaction first and gives up its locks in a step of its own,
with requests of others in between. Such a cache can refuse a put because of a transaction that has
ended already. Apart from those refusals a run of it is a run of `Cache` (`exists_run`): the same
answers in the same order, the same entries and open transactions, and the locks of these.
-/

namespace CacheBench

open Std (TreeMap)

def Cache.withLocks (c : Cache) (locks : TreeMap Key TxId) : Cache :=
  { c with store := { c.store with locks } }

/-- A cache with the transactions that have ended and not yet given up their locks. -/
structure Releasing where
  cache : Cache
  closing : TreeMap TxId Transaction := ∅

namespace Releasing

inductive Move
  | request (r : Request)
  | release (t : TxId)

/-- Ends a transaction, as far as that goes without its locks. -/
def ended (m : Releasing) (t : TxId) (tx : Transaction) (r : Request) : Releasing where
  cache := { store := m.cache.store.applied (m.cache.batch? r), live := m.cache.live.erase t }
  closing := m.closing.insert t tx

def after (m : Releasing) (r : Request) : Releasing :=
  match r with
  | .commit t | .rollback t | .drop t =>
    match m.cache.live[t]? with
    | some tx => m.ended t tx r
    | none => m
  | r => { m with cache := (m.cache.step r).2 }

def release (m : Releasing) (t : TxId) : Releasing :=
  match m.closing[t]? with
  | some tx =>
    { cache := { m.cache with store := tx.close m.cache.store }, closing := m.closing.erase t }
  | none => m

def run (m : Releasing) : List Move → List (Exchange CacheError) × Releasing
  | [] => ([], m)
  | .release t :: moves => (m.release t).run moves
  | .request r :: moves =>
    let (exchanges, m') := (m.after r).run moves
    (⟨r, (m.cache.step r).1⟩ :: exchanges, m')

/-- What came back in a run, and the same without some of the refused puts. -/
inductive RefusesMore : List (Exchange CacheError) → List (Exchange CacheError) → Prop
  | nil : RefusesMore [] []
  | same {x : Exchange CacheError} {xs ys : List (Exchange CacheError)} :
    RefusesMore xs ys → RefusesMore (x :: xs) (x :: ys)
  | refused {t : TxId} {k : Key} {v : Value} {milliseconds : UInt64}
    {xs ys : List (Exchange CacheError)} : RefusesMore xs ys →
    RefusesMore (⟨.txPut t k v, .error (.lockTimeout k milliseconds)⟩ :: xs) ys

/-- The cache `c` is what `m` will be when all ended transactions have given up their locks. -/
structure Lags (m : Releasing) (c : Cache) : Prop where
  same : c = m.cache.withLocks c.store.locks
  locks : ∀ (k : Key) (t : TxId),
    c.store.locks[k]? = some t ↔ m.cache.store.locks[k]? = some t ∧ t ∉ m.closing
  ended : ∀ t ∈ m.closing, m.cache.live[t]? = none ∧ t < m.cache.store.nextTx
  held : ∀ (t : TxId) (tx : Transaction), m.closing[t]? = some tx → tx.id = t ∧
    ∀ k : Key, m.cache.store.locks[k]? = some t → k ∈ tx.held
  owned : c.LocksOwned
  numbered : c.Numbered

variable {m : Releasing} {c : Cache}

theorem lags_ofSettings (settings : Settings) :
    Lags { cache := .ofSettings settings } (.ofSettings settings) where
  same := rfl
  locks k t := by simp [Cache.ofSettings]
  ended t ht := by simp at ht
  held t tx ht := by simp at ht
  owned := Cache.locksOwned_ofSettings settings
  numbered := Cache.numbered_ofSettings settings

/-! ## Requests that touch no lock -/

def Lockless : Request → Prop
  | .txPut _ _ _ | .commit _ | .rollback _ | .drop _ => False
  | _ => True

theorem step_withLocks (c : Cache) (locks : TreeMap Key TxId) {r : Request} (hr : Lockless r) :
    (c.withLocks locks).step r = ((c.step r).1, (c.step r).2.withLocks locks) ∧
      (c.step r).2.store.locks = c.store.locks := by
  cases r with
  | get _ | put _ _ | query _ | size => exact ⟨rfl, rfl⟩
  | putAll b =>
      simp only [Cache.step, Cache.withLocks, Store.putAll]
      split <;> exact ⟨rfl, rfl⟩
  | begin =>
      by_cases hs : c.store.settings.transactional
      · have hs' : (c.withLocks locks).store.settings.transactional := hs
        rw [Cache.step_begin hs, Cache.step_begin hs']
        exact ⟨rfl, rfl⟩
      · have hs' : ¬ (c.withLocks locks).store.settings.transactional := hs
        rw [Cache.step_begin_of_not_transactional hs, Cache.step_begin_of_not_transactional hs']
        exact ⟨rfl, rfl⟩
  | txGet t k =>
      simp only [Cache.step, Cache.withTransaction, Cache.withLocks]
      split <;> exact ⟨rfl, rfl⟩
  | txPut _ _ _ | commit _ | rollback _ | drop _ => cases hr

theorem Lags.ended_step (h : m.Lags c) (r : Request) (t : TxId) (ht : t ∈ m.closing) :
    (m.cache.step r).2.live[t]? = none ∧ t < (m.cache.step r).2.store.nextTx := by
  obtain ⟨hl, hlt⟩ := h.ended t ht
  refine ⟨?_, Nat.lt_of_lt_of_le hlt (m.cache.nextTx_le_step r)⟩
  cases hl' : (m.cache.step r).2.live[t]? with
  | none => rfl
  | some tx =>
      rcases Cache.live_step_eq_some hl' with ⟨-, he, -⟩ | ⟨-, tx', hsome, -⟩ | ⟨-, hsome⟩
      · exact absurd he (Nat.ne_of_lt hlt)
      · cases hl.symm.trans hsome
      · cases hl.symm.trans hsome

theorem Lags.lockless (h : m.Lags c) {r : Request} (hr : Lockless r) :
    (m.cache.step r).1 = (c.step r).1 ∧
      Lags { m with cache := (m.cache.step r).2 } (c.step r).2 := by
  obtain ⟨hstep, hlocks⟩ := step_withLocks m.cache c.store.locks hr
  rw [← h.same] at hstep
  have hlocks' := (step_withLocks c c.store.locks hr).2
  refine ⟨(congrArg Prod.fst hstep).symm, ?_, ?_, h.ended_step r, ?_, h.owned.step h.numbered r,
    h.numbered.step r⟩
  · rw [hlocks']
    exact congrArg Prod.snd hstep
  · intro k t
    rw [hlocks', hlocks]
    exact h.locks k t
  · intro t tx ht
    rw [hlocks]
    exact h.held t tx ht

/-! ## Puts -/

/-- The request is a put of a key that a transaction holds which has ended already. -/
def Hindered (m : Releasing) (r : Request) : Prop :=
  ∃ t k v owner, r = .txPut t k v ∧ owner ∈ m.closing ∧ m.cache.store.locks[k]? = some owner ∧
    m.cache.step r = (.error (.lockTimeout k m.cache.store.settings.lockTimeout), m.cache)

theorem Lags.settings_eq (h : m.Lags c) : c.store.settings = m.cache.store.settings := by
  rw [h.same]
  rfl

theorem Lags.live_eq (h : m.Lags c) : c.live = m.cache.live := by
  rw [h.same]
  rfl

theorem Lags.not_mem_closing (h : m.Lags c) {t : TxId} {tx : Transaction}
    (hl : m.cache.live[t]? = some tx) : t ∉ m.closing := by
  intro ht
  cases (h.ended t ht).1.symm.trans hl

/-- The table `locks` is that of `s` without the locks of the transactions that have ended, which got
no new ones. -/
structure LocksLag (m : Releasing) (s : Store) (locks : TreeMap Key TxId) : Prop where
  table : ∀ (a : Key) (o : TxId), locks[a]? = some o ↔ s.locks[a]? = some o ∧ o ∉ m.closing
  old : ∀ (a : Key), ∀ o ∈ m.closing, s.locks[a]? = some o → m.cache.store.locks[a]? = some o

theorem Lags.locksLag (h : m.Lags c) : m.LocksLag m.cache.store c.store.locks :=
  ⟨h.locks, fun _ _ _ => id⟩

theorem Lags.store_eq (h : m.Lags c) : c.store = { m.cache.store with locks := c.store.locks } :=
  congrArg Cache.store h.same

/-- A lock that is free, or its own, a transaction gets in both. -/
theorem Lags.lock_of_some (h : m.Lags c) {t : TxId} (ht : t ∉ m.closing) {k : Key} {s : Store}
    (hlock : m.cache.store.lock? k t = some s) :
    ∃ locks, c.store.lock? k t = some { s with locks } ∧ m.LocksLag s locks := by
  rcases Store.lock?_eq_some_iff.1 hlock with ⟨hfree, rfl⟩ | ⟨hown, rfl⟩
  · have hfree' : c.store.locks[k]? = none := by
      cases howner : c.store.locks[k]? with
      | none => rfl
      | some owner => cases hfree.symm.trans ((h.locks k owner).1 howner).1
    refine ⟨c.store.locks.insert k t, Store.lock?_eq_some_iff.2 (.inl ⟨hfree', ?_⟩), ?_, ?_⟩
    · rw [h.store_eq]
    · intro a o
      simp only [TreeMap.getElem?_insert]
      split
      · simp only [Option.some.injEq, iff_self_and]
        rintro rfl
        exact ht
      · exact h.locks a o
    · intro a o ho
      simp only [TreeMap.getElem?_insert]
      split
      · rintro ⟨⟩
        exact absurd ho ht
      · exact id
  · exact ⟨c.store.locks, Store.lock?_eq_some_iff.2 (.inr ⟨(h.locks k t).2 ⟨hown, ht⟩,
      h.store_eq.symm⟩), h.locksLag⟩

/-- A put that goes through does so in both. -/
theorem Lags.txPut_of_ok (h : m.Lags c) {t : TxId} {tx tx' : Transaction} {k : Key} {v : Value}
    {s : Store} (hl : m.cache.live[t]? = some tx) (hp : tx.put m.cache.store k v = .ok (s, tx')) :
    ∃ locks, tx.put c.store k v = .ok ({ s with locks }, tx') ∧ m.LocksLag s locks := by
  have hid : tx.id = t := (h.numbered t tx (h.live_eq ▸ hl)).1
  rcases Transaction.put_eq_ok_iff.1 hp with ⟨hc, hk, hlock, rfl⟩ | ⟨hnot, rfl, rfl⟩
  · rw [← h.settings_eq] at hc
    rw [hid] at hlock
    obtain ⟨locks, hlock', hlag⟩ := h.lock_of_some (h.not_mem_closing hl) hlock
    exact ⟨locks, Transaction.put_eq_ok_iff.2 (.inl ⟨hc, hk, hid ▸ hlock', rfl⟩), hlag⟩
  · rw [← h.settings_eq] at hnot
    exact ⟨c.store.locks, Transaction.put_eq_ok_iff.2 (.inr ⟨hnot, h.store_eq.symm, rfl⟩),
      h.locksLag⟩

/-- A put that is refused is refused in both, unless the owner of the key has ended. -/
theorem Lags.txPut_of_error (h : m.Lags c) {t : TxId} {tx : Transaction} {k : Key} {v : Value}
    {e : CacheError} (hl : m.cache.live[t]? = some tx)
    (hp : tx.put m.cache.store k v = .error e) :
    tx.put c.store k v = .error e ∨ m.Hindered (.txPut t k v) := by
  obtain ⟨hc, hk, hlock, rfl⟩ := Transaction.put_eq_error_iff.1 hp
  obtain ⟨owner, hne, howner⟩ := Store.lock?_eq_none_iff.1 hlock
  by_cases hclosing : owner ∈ m.closing
  · exact .inr ⟨t, k, v, owner, rfl, hclosing, howner, Cache.step_txPut_of_error hl hp⟩
  · left
    rw [← h.settings_eq] at hc ⊢
    refine Transaction.put_eq_error_iff.2 ⟨hc, hk, ?_, rfl⟩
    exact Store.lock?_eq_none_iff.2 ⟨owner, hne, (h.locks k owner).2 ⟨howner, hclosing⟩⟩

theorem Lags.txPut (h : m.Lags c) (t : TxId) (k : Key) (v : Value) :
    ((m.cache.step (.txPut t k v)).1 = (c.step (.txPut t k v)).1 ∧
      Lags { m with cache := (m.cache.step (.txPut t k v)).2 } (c.step (.txPut t k v)).2) ∨
    m.Hindered (.txPut t k v) := by
  cases hl : m.cache.live[t]? with
  | none =>
      rw [Cache.step_of_not_live hl rfl, Cache.step_of_not_live (h.live_eq ▸ hl) rfl]
      exact .inl ⟨rfl, h⟩
  | some tx =>
      have hl' : c.live[t]? = some tx := h.live_eq ▸ hl
      cases hp : tx.put m.cache.store k v with
      | error e =>
          rcases h.txPut_of_error hl hp with hp' | hhindered
          · rw [Cache.step_txPut_of_error hl hp, Cache.step_txPut_of_error hl' hp']
            exact .inl ⟨rfl, h⟩
          · exact .inr hhindered
      | ok p =>
          obtain ⟨s, tx'⟩ := p
          obtain ⟨locks, hp', hlocks, hold⟩ := h.txPut_of_ok hl hp
          have hended := h.ended_step (.txPut t k v)
          have howned := h.owned.step h.numbered (.txPut t k v)
          have hnumbered := h.numbered.step (.txPut t k v)
          rw [Cache.step_txPut_of_ok hl hp] at hended ⊢
          rw [Cache.step_txPut_of_ok hl' hp'] at howned hnumbered ⊢
          refine .inl ⟨rfl, ?_, hlocks, hended, ?_, howned, hnumbered⟩
          · rw [h.live_eq]
            rfl
          · intro o tx₁ ho
            obtain ⟨hid, hheld⟩ := h.held o tx₁ ho
            have hmem : o ∈ m.closing := TreeMap.mem_iff_isSome_getElem?.2 (ho ▸ rfl)
            exact ⟨hid, fun a ha => hheld a (hold a o hmem ha)⟩

/-! ## Ends -/

theorem commit_withLocks (s : Store) (locks : TreeMap Key TxId) (tx : Transaction) :
    (tx.commit { s with locks }).1 = (tx.commit s).1 := by
  have hconflict : tx.conflict? { s with locks } = tx.conflict? s := rfl
  unfold Transaction.commit
  rw [hconflict]
  by_cases hw : tx.writes.isEmpty
  · rw [if_pos hw, if_pos hw]
  · rw [if_neg hw, if_neg hw]
    cases if s.settings.concurrency = .optimistic then tx.conflict? s else none <;> rfl

theorem Lags.batch?_eq (h : m.Lags c) (r : Request) : c.batch? r = m.cache.batch? r := by
  obtain ⟨locks, rfl⟩ : ∃ locks, c = m.cache.withLocks locks := ⟨_, h.same⟩
  cases r with
  | commit t =>
      change (m.cache.live[t]?.bind fun tx => tx.batch? { m.cache.store with locks }) = _
      have hbatch : ∀ tx : Transaction,
          tx.batch? { m.cache.store with locks } = tx.batch? m.cache.store := by
        intro tx
        ext b
        rw [Transaction.batch?_eq_some_iff, Transaction.batch?_eq_some_iff, commit_withLocks]
      simp only [hbatch]
      rfl
  | _ => rfl

theorem Lags.answer_of_ends (h : m.Lags c) {t : TxId} {tx : Transaction} {r : Request}
    (hr : r.Ends t) (hl : m.cache.live[t]? = some tx) :
    (m.cache.step r).1 = (c.step r).1 := by
  have hl' : c.live[t]? = some tx := h.live_eq ▸ hl
  rcases hr with rfl | rfl | rfl
  · rw [Cache.step_commit hl, Cache.step_commit hl']
    calc (tx.commit m.cache.store).1
        = (tx.commit { m.cache.store with locks := c.store.locks }).1 :=
          (commit_withLocks _ _ tx).symm
      _ = (tx.commit c.store).1 := by rw [← h.store_eq]
  · rw [Cache.step_rollback hl, Cache.step_rollback hl']
  · rw [Cache.step_drop hl, Cache.step_drop hl']

theorem Lags.ends (h : m.Lags c) {t : TxId} {tx : Transaction} {r : Request} (hr : r.Ends t)
    (hl : m.cache.live[t]? = some tx) : Lags (m.ended t tx r) (c.step r).2 := by
  have hl' : c.live[t]? = some tx := h.live_eq ▸ hl
  have hopen := h.not_mem_closing hl
  obtain ⟨hid, hlt⟩ := h.numbered t tx hl'
  have howns (k : Key) : m.cache.store.locks[k]? = some t ↔ c.store.locks[k]? = some t :=
    ⟨fun hk => (h.locks k t).2 ⟨hk, hopen⟩, fun hk => ((h.locks k t).1 hk).1⟩
  have hbatch := h.batch?_eq r
  refine ⟨?same, ?locks, ?ended, ?held, h.owned.step h.numbered r, h.numbered.step r⟩
  case same =>
    rw [Cache.step_of_ends hl' hr, hbatch]
    obtain ⟨locks, rfl⟩ : ∃ locks, c = m.cache.withLocks locks := ⟨_, h.same⟩
    unfold Releasing.ended
    cases m.cache.batch? r <;> rfl
  case locks =>
    intro k o
    rw [h.owned.released h.numbered hl' hr, Releasing.ended, Store.locks_applied]
    simp only [TreeMap.mem_insert, Std.LawfulEqCmp.compare_eq_iff_eq, not_or]
    split
    · rename_i hk
      rw [(howns k).2 hk]
      constructor
      · rintro ⟨⟩
      · rintro ⟨he, hne, -⟩
        exact absurd (Option.some.inj he) hne
    · rename_i hk
      rw [h.locks]
      refine and_congr_right fun ho => ⟨fun hclosed => ⟨?_, hclosed⟩, And.right⟩
      rintro rfl
      exact hk ((howns k).1 ho)
  case ended =>
    intro o ho
    simp only [Releasing.ended, TreeMap.mem_insert, Std.LawfulEqCmp.compare_eq_iff_eq] at ho ⊢
    rw [Store.nextTx_applied]
    rcases ho with rfl | ho
    · rw [h.same] at hlt
      exact ⟨by simp, hlt⟩
    · obtain ⟨hnone, hlt'⟩ := h.ended o ho
      exact ⟨by simp [TreeMap.getElem?_erase, hnone], hlt'⟩
  case held =>
    intro o tx₁ ho
    simp only [Releasing.ended, TreeMap.getElem?_insert, Store.locks_applied] at ho ⊢
    split at ho
    · rename_i heq
      obtain rfl := Std.LawfulEqCmp.compare_eq_iff_eq.1 heq
      obtain rfl := Option.some.inj ho
      refine ⟨hid, fun k hk => ?_⟩
      obtain ⟨tx', hl₁, hheld⟩ := (h.owned k t).1 ((howns k).1 hk)
      obtain rfl := Option.some.inj (hl'.symm.trans hl₁)
      exact hheld
    · exact h.held o tx₁ ho

theorem Lags.release (h : m.Lags c) (t : TxId) : Lags (m.release t) c := by
  unfold Releasing.release
  split
  · rename_i tx htx
    obtain ⟨hid, hheld⟩ := h.held t tx htx
    have ht : t ∈ m.closing := TreeMap.mem_iff_isSome_getElem?.2 (htx ▸ rfl)
    have hlocks (k : Key) (o : TxId) : (tx.close m.cache.store).locks[k]? = some o ↔
        m.cache.store.locks[k]? = some o ∧ o ≠ t := by
      rw [Transaction.close, Store.locks_unlock, hid]
      split
      · rename_i hk
        rw [hk.2]
        simp [eq_comm]
      · rename_i hk
        refine ⟨fun ho => ⟨ho, ?_⟩, And.left⟩
        rintro rfl
        exact hk ⟨hheld k ho, ho⟩
    refine ⟨h.same, ?locks, ?ended, ?held, h.owned, h.numbered⟩
    case locks =>
      intro k o
      rw [h.locks, hlocks]
      simp only [TreeMap.mem_erase, Std.LawfulEqCmp.compare_eq_iff_eq, ne_eq]
      constructor
      · rintro ⟨ho, hnot⟩
        exact ⟨⟨ho, fun he => hnot (he ▸ ht)⟩, fun hmem => hnot hmem.2⟩
      · rintro ⟨⟨ho, hne⟩, hnot⟩
        exact ⟨ho, fun hmem => hnot ⟨fun he => hne he.symm, hmem⟩⟩
    case ended =>
      intro o ho
      exact h.ended o (TreeMap.mem_of_mem_erase ho)
    case held =>
      intro o tx₁ ho
      rw [TreeMap.getElem?_erase] at ho
      split at ho
      · cases ho
      · obtain ⟨hid', hheld'⟩ := h.held o tx₁ ho
        exact ⟨hid', fun k hk => hheld' k ((hlocks k o).1 hk).1⟩
  · exact h

/-! ## Runs -/

theorem after_of_not_live {t : TxId} {r : Request} (hr : r.Ends t)
    (hl : m.cache.live[t]? = none) : m.after r = m := by
  rcases hr with rfl | rfl | rfl <;> simp only [after, hl]

theorem after_of_live {t : TxId} {tx : Transaction} {r : Request} (hr : r.Ends t)
    (hl : m.cache.live[t]? = some tx) : m.after r = m.ended t tx r := by
  rcases hr with rfl | rfl | rfl <;> simp only [after, hl]

theorem Lags.end_or_not (h : m.Lags c) {t : TxId} {r : Request} (hr : r.Ends t) :
    (m.cache.step r).1 = (c.step r).1 ∧ Lags (m.after r) (c.step r).2 := by
  cases hl : m.cache.live[t]? with
  | none =>
      rw [Cache.step_of_not_live hl hr.tx?, Cache.step_of_not_live (h.live_eq ▸ hl) hr.tx?,
        after_of_not_live hr hl]
      exact ⟨rfl, h⟩
  | some tx =>
      rw [after_of_live hr hl]
      exact ⟨h.answer_of_ends hr hl, h.ends hr hl⟩

/-- A request is answered alike in both, unless it is hindered and changes nothing. -/
theorem Lags.request (h : m.Lags c) (r : Request) :
    ((m.cache.step r).1 = (c.step r).1 ∧ Lags (m.after r) (c.step r).2) ∨
      (m.Hindered r ∧ m.after r = m) := by
  cases r with
  | get _ | put _ _ | putAll _ | query _ | size | begin | txGet _ _ =>
      exact .inl (h.lockless trivial)
  | commit t | rollback t | drop t => exact .inl (h.end_or_not (t := t) (by simp [Request.Ends]))
  | txPut t k v =>
      rcases h.txPut t k v with hboth | hhindered
      · exact .inl hboth
      · refine .inr ⟨hhindered, ?_⟩
        obtain ⟨_, _, _, _, ⟨⟩, -, -, hstep⟩ := hhindered
        change { m with cache := (m.cache.step (.txPut t k v)).2 } = m
        rw [hstep]

theorem Lags.run (h : m.Lags c) (moves : List Move) :
    ∃ rs, RefusesMore (m.run moves).1 (c.run rs).1 ∧ Lags (m.run moves).2 (c.run rs).2 := by
  induction moves generalizing m c with
  | nil => exact ⟨[], .nil, h⟩
  | cons move moves ih =>
      cases move with
      | release t => exact ih (h.release t)
      | request r =>
          rcases h.request r with ⟨hanswer, hafter⟩ | ⟨hhindered, hafter⟩
          · obtain ⟨rs, hmore, hlags⟩ := ih hafter
            refine ⟨r :: rs, ?_, hlags⟩
            simp only [Releasing.run, Cache.run, hanswer]
            exact .same hmore
          · obtain ⟨rs, hmore, hlags⟩ := ih h
            obtain ⟨t, k, v, owner, rfl, -, -, hstep⟩ := hhindered
            refine ⟨rs, ?_, ?_⟩
            · simp only [Releasing.run, hafter, hstep]
              exact .refused hmore
            · simp only [Releasing.run, hafter]
              exact hlags

/-- A locked key is held by an open transaction or by one that has ended. -/
theorem Lags.exists_owner (h : m.Lags c) {k : Key} {t : TxId}
    (hk : m.cache.store.locks[k]? = some t) :
    ∃ tx, k ∈ tx.held ∧ (m.cache.live[t]? = some tx ∨ m.closing[t]? = some tx) := by
  cases hclosing : m.closing[t]? with
  | some tx => exact ⟨tx, (h.held t tx hclosing).2 k hk, .inr rfl⟩
  | none =>
      have ht : t ∉ m.closing := by
        rw [TreeMap.mem_iff_isSome_getElem?, hclosing]
        exact Bool.false_ne_true
      obtain ⟨tx, hl, hheld⟩ := (h.owned k t).1 ((h.locks k t).2 ⟨hk, ht⟩)
      exact ⟨tx, hheld, .inl (h.live_eq ▸ hl)⟩

/-- An open transaction's put of a key is refused only while another one holds the key, be it open
or ended. -/
theorem Lags.exists_owner_of_refused (h : m.Lags c) {t : TxId} {tx : Transaction} {k : Key}
    {v : Value} {e : CacheError} (hl : m.cache.live[t]? = some tx)
    (he : (m.cache.step (.txPut t k v)).1 = .error e) :
    e = .lockTimeout k m.cache.store.settings.lockTimeout ∧
      ∃ t' tx', t' ≠ t ∧ k ∈ tx'.held ∧
        (m.cache.live[t']? = some tx' ∨ m.closing[t']? = some tx') := by
  have hid : tx.id = t := (h.numbered t tx (h.live_eq ▸ hl)).1
  cases hp : tx.put m.cache.store k v with
  | ok p =>
      rw [Cache.step_txPut_of_ok hl hp] at he
      cases he
  | error e' =>
      rw [Cache.step_txPut_of_error hl hp] at he
      cases he
      obtain ⟨-, -, hlock, rfl⟩ := Transaction.put_eq_error_iff.1 hp
      obtain ⟨owner, hne, howner⟩ := Store.lock?_eq_none_iff.1 hlock
      obtain ⟨tx', hheld, hholds⟩ := h.exists_owner howner
      exact ⟨rfl, owner, tx', hid ▸ hne, hheld, hholds⟩

/-- Giving up locks later makes no difference but to the puts that are refused for it. -/
theorem exists_run (settings : Settings) (moves : List Move) :
    ∃ rs, RefusesMore (({ cache := .ofSettings settings } : Releasing).run moves).1
        ((Cache.ofSettings settings).run rs).1 ∧
      Lags (({ cache := .ofSettings settings } : Releasing).run moves).2
        ((Cache.ofSettings settings).run rs).2 :=
  (lags_ofSettings settings).run moves

end Releasing

end CacheBench
