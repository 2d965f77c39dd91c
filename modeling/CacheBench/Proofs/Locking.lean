import CacheBench.Proofs.Timeline

/-!
# Key locks

A key is locked by a transaction exactly while that transaction is open and has the key among its
held ones, so a key has one owner at most. A pessimistic transaction holds exactly the keys that it
has put. From its put of a key to its own commit no other transaction therefore writes that key.
Before the put nothing keeps others off it: a read takes no lock, and `lostUpdate` is a run in
which another transaction writes the key between a read and a put of it.
-/

namespace CacheBench

open Std (TreeMap)

namespace Cache

variable {c : Cache} {t : TxId}

/-- The lock table names the open transactions that hold the keys. -/
def LocksOwned (c : Cache) : Prop :=
  ∀ (k : Key) (t : TxId), c.store.locks[k]? = some t ↔
    ∃ tx : Transaction, c.live[t]? = some tx ∧ k ∈ tx.held

theorem locksOwned_ofSettings (settings : Settings) : (ofSettings settings).LocksOwned := by
  intro k t
  simp [ofSettings]

/-- Closing a transaction frees its keys and leaves the owners of all others. -/
theorem LocksOwned.close {tx : Transaction} {s : Store} (h : c.LocksOwned) (hn : c.Numbered)
    (hl : c.live[t]? = some tx) (hs : s.locks = c.store.locks) :
    ({ store := tx.close s, live := c.live.erase t } : Cache).LocksOwned := by
  intro k t'
  have hid : tx.id = t := (hn t tx hl).1
  have hlocks : (tx.close s).locks[k]? =
      if k ∈ tx.held ∧ c.store.locks[k]? = some t then none else c.store.locks[k]? := by
    rw [Transaction.close, Store.locks_unlock, hs, hid]
  have hlive : (c.live.erase t)[t']? = if t = t' then none else c.live[t']? := by
    simp [TreeMap.getElem?_erase]
  simp only [hlocks, hlive]
  by_cases ht : t = t'
  · subst t'
    have hnot : ¬ (if k ∈ tx.held ∧ c.store.locks[k]? = some t then none
        else c.store.locks[k]?) = some t := by
      split
      · simp
      · rename_i hcond
        intro hk
        obtain ⟨tx', hl', hheld⟩ := (h k t).1 hk
        obtain rfl : tx = tx' := Option.some.inj (hl.symm.trans hl')
        exact hcond ⟨hheld, hk⟩
    simp [hnot]
  · rw [if_neg ht, ← h k t']
    split
    · rename_i hcond
      rw [hcond.2]
      simp [ht]
    · rfl

theorem LocksOwned.txPut {s : Store} {tx tx' : Transaction} {a : Key} {v : Value}
    (h : c.LocksOwned) (hn : c.Numbered) (hl : c.live[t]? = some tx)
    (hp : tx.put c.store a v = .ok (s, tx')) :
    ({ store := s, live := c.live.insert t tx' } : Cache).LocksOwned := by
  intro k t'
  have hlive : (c.live.insert t tx')[t']? = if t = t' then some tx' else c.live[t']? := by
    simp [TreeMap.getElem?_insert]
  have hid : tx.id = t := (hn t tx hl).1
  simp only [hlive]
  rcases Transaction.put_eq_ok_iff.1 hp with ⟨-, ha, hlock, rfl⟩ | ⟨-, rfl, rfl⟩
  · -- the key `a` was free or already locked by `t`, and is locked by `t` now
    have hfree : c.store.locks[a]? = none ∨ c.store.locks[a]? = some t := by
      rcases Store.lock?_eq_some_iff.1 hlock with ⟨hnone, -⟩ | ⟨hown, -⟩
      · exact .inl hnone
      · exact .inr (hid ▸ hown)
    have hlocks : s.locks[k]? = if a = k then some t else c.store.locks[k]? := by
      rcases Store.lock?_eq_some_iff.1 hlock with ⟨-, rfl⟩ | ⟨hown, rfl⟩
      · simp [TreeMap.getElem?_insert, hid]
      · by_cases hak : a = k
        · rw [if_pos hak, ← hak, hown, hid]
        · rw [if_neg hak]
    rw [hlocks]
    by_cases ht : t = t'
    · subst t'
      by_cases hak : a = k
      · simp [hak]
      · have hka : ¬ k = a := fun he => hak he.symm
        simp [hak, hka, h k t, hl]
    · by_cases hak : a = k
      · subst k
        have hother : ¬ ∃ tx', c.live[t']? = some tx' ∧ a ∈ tx'.held := by
          rw [← h a t']
          rcases hfree with hnone | hown
          · simp [hnone]
          · simp [hown, ht]
        simpa [ht] using fun tx' hl' hheld => hother ⟨tx', hl', hheld⟩
      · simp [hak, ht, h k t']
  · by_cases ht : t = t'
    · subst t'
      simp [h k t, hl]
    · simp [ht, h k t']

theorem LocksOwned.step (h : c.LocksOwned) (hn : c.Numbered) (r : Request) :
    (c.step r).2.LocksOwned := by
  rcases c.not_live_or_live r with ⟨t, hr, hl⟩ | hlive
  · rw [step_of_not_live hl hr]
    exact h
  cases r with
  | get _ | put _ _ | query _ | size => exact h
  | putAll b =>
      simp only [Cache.step, Store.putAll]
      split <;> exact h
  | begin =>
      by_cases hs : c.store.settings.transactional
      · rw [step_begin hs]
        intro k t
        by_cases ht : c.store.nextTx = t
        · -- a new transaction holds nothing, and its number owned nothing before
          have hnone : ¬ ∃ tx, c.live[t]? = some tx ∧ k ∈ tx.held := by
            rintro ⟨tx, hl, -⟩
            exact absurd (hn t tx hl).2 (ht ▸ Nat.lt_irrefl _)
          subst t
          simpa [h k c.store.nextTx] using hnone
        · simp [TreeMap.getElem?_insert, ht, h k t]
      · rw [step_begin_of_not_transactional hs]
        exact h
  | txGet t a =>
      obtain ⟨tx, hl⟩ := hlive t rfl
      rw [step_txGet hl]
      intro k t'
      by_cases ht : t = t'
      · subst t'
        simp [h k t, hl]
      · simp [TreeMap.getElem?_insert, ht, h k t']
  | txPut t a v =>
      obtain ⟨tx, hl⟩ := hlive t rfl
      cases hp : tx.put c.store a v with
      | error e =>
          rw [step_txPut_of_error hl hp]
          exact h
      | ok p =>
          rw [step_txPut_of_ok hl hp]
          exact h.txPut hn hl hp
  | commit t | rollback t | drop t =>
      obtain ⟨tx, hl⟩ := hlive t rfl
      rw [step_of_ends (t := t) hl (by simp [Request.Ends])]
      exact h.close hn hl (Store.locks_applied _ _)

/-- Every open transaction has locked exactly the keys that it has buffered. -/
def HoldsWrites (c : Cache) : Prop :=
  ∀ (t : TxId) (tx : Transaction), c.live[t]? = some tx → ∀ k, k ∈ tx.writes ↔ k ∈ tx.held

theorem holdsWrites_ofSettings (settings : Settings) : (ofSettings settings).HoldsWrites := by
  intro t tx h
  simp [ofSettings] at h

theorem HoldsWrites.step (hc : c.store.settings.concurrency = .pessimistic) (h : c.HoldsWrites)
    (r : Request) : (c.step r).2.HoldsWrites := by
  intro t tx' hl k
  rcases live_step_eq_some hl with ⟨-, -, rfl⟩ | ⟨-, tx, hl', hs⟩ | ⟨-, hl'⟩
  · simp
  · have hk := h t tx hl' k
    rcases Transaction.step?_eq_some hs with rfl | ⟨_, a, _, rfl⟩ | ⟨_, a, v, s', _, hp⟩
    · exact hk
    · rw [Transaction.get_writes, Transaction.get_held]
      exact hk
    · rw [Transaction.put_writes hp, Transaction.mem_held_put hc hp, TreeMap.mem_insert, hk,
        Std.LawfulEqCmp.compare_eq_iff_eq]
      exact or_congr_left eq_comm
  · exact h t tx' hl' k

/-! ## Locks over time -/

variable {rs : List Request} {i j p : Nat} {k : Key}

theorem LocksOwned.before (h : c.LocksOwned) (hn : c.Numbered) (rs : List Request) (i : Nat) :
    (c.before rs i).LocksOwned := by
  have hboth : (c.before rs i).LocksOwned ∧ (c.before rs i).Numbered :=
    before_induction c rs (P := fun c => c.LocksOwned ∧ c.Numbered) ⟨h, hn⟩
      (fun _ r hc => ⟨hc.1.step hc.2 r, hc.2.step r⟩) i
  exact hboth.1

theorem locksOwned_before (settings : Settings) (rs : List Request) (i : Nat) :
    ((ofSettings settings).before rs i).LocksOwned :=
  (locksOwned_ofSettings settings).before (numbered_ofSettings settings) rs i

theorem holdsWrites_before {settings : Settings} (hc : settings.concurrency = .pessimistic)
    (rs : List Request) (i : Nat) : ((ofSettings settings).before rs i).HoldsWrites := by
  have h : ((ofSettings settings).before rs i).HoldsWrites ∧
      ((ofSettings settings).before rs i).store.settings.concurrency = .pessimistic :=
    before_induction _ rs
      (P := fun c => c.HoldsWrites ∧ c.store.settings.concurrency = .pessimistic)
      ⟨holdsWrites_ofSettings settings, hc⟩
      (fun c r h => ⟨h.1.step h.2 r, by rw [settings_step]; exact h.2⟩) i
  exact h.1

theorem held_eq_nil {settings : Settings} (hc : settings.concurrency = .optimistic) (i : Nat)
    (tx : Transaction) (hl : ((ofSettings settings).before rs i).live[t]? = some tx) :
    tx.held = [] := by
  refine live_induction (P := fun _ tx => tx.held = []) settings rs t ?_ ?_ ?_ i tx hl
  · intro _ _ _
    rfl
  · intro n r tx tx' _ _ _ hs ih
    have hc' : ((ofSettings settings).before rs n).store.settings.concurrency = .optimistic := by
      rwa [settings_before]
    rcases Transaction.step?_eq_some hs with rfl | ⟨_, a, _, rfl⟩ | ⟨_, a, v, s', _, hp⟩
    · exact ih
    · rw [Transaction.get_held, ih]
    · rcases Transaction.put_eq_ok_iff.1 hp with ⟨hp, -⟩ | ⟨-, -, rfl⟩
      · rw [hc'] at hp
        cases hp
      · exact ih
  · exact fun _ _ _ ih => ih

theorem held_before_mono (hn : c.Numbered) (hij : i ≤ j) {tx tx' : Transaction}
    (hl : (c.before rs i).live[t]? = some tx) (hk : k ∈ tx.held)
    (hl' : (c.before rs j).live[t]? = some tx') : k ∈ tx'.held := by
  induction j, hij using Nat.le_induction generalizing tx' with
  | base =>
      obtain rfl : tx = tx' := Option.some.inj (hl.symm.trans hl')
      exact hk
  | succ j hij ih =>
      cases hr : rs[j]? with
      | none =>
          rw [before_succ_of_none c rs hr] at hl'
          exact ih hl'
      | some r =>
          rw [before_succ c rs hr] at hl'
          have hlt : t < (c.before rs j).store.nextTx :=
            Nat.lt_of_lt_of_le (c.numbered_before rs hn i t tx hl).2 (c.nextTx_before_mono rs hij)
          rcases live_step_eq_some hl' with ⟨-, he, -⟩ | ⟨-, tx₁, hl₁, hs⟩ | ⟨-, hl₁⟩
          · exact absurd he (Nat.ne_of_lt hlt)
          · exact Transaction.step?_held hs (ih hl₁)
          · exact ih hl₁

def CommitsKey (c : Cache) (rs : List Request) (i : Nat) (t : TxId) (k : Key) : Prop :=
  rs[i]? = some (.commit t) ∧ c.WritesAt rs i k

theorem mem_writes_of_batch? {b : Batch} (hb : c.batch? (.commit t) = some b) (hk : k ∈ b) :
    ∃ tx : Transaction, c.live[t]? = some tx ∧ k ∈ tx.writes := by
  obtain ⟨tx, hl, hb⟩ := Option.bind_eq_some_iff.1 hb
  obtain ⟨-, -, rfl⟩ := Transaction.batch?_eq_some hb
  exact ⟨tx, hl, hk⟩

theorem CommitsKey.writes (h : c.CommitsKey rs i t k) :
    ∃ tx : Transaction, (c.before rs i).live[t]? = some tx ∧ k ∈ tx.writes := by
  obtain ⟨hr, r, b, hr', hb, hk⟩ := h
  obtain rfl : r = .commit t := Option.some.inj (hr'.symm.trans hr)
  exact mem_writes_of_batch? hb hk

theorem writes_of_txPut {v : Value} (h : c.Answers rs i (.txPut t k v) (.ok ())) :
    ∃ tx : Transaction, (c.before rs (i + 1)).live[t]? = some tx ∧ k ∈ tx.writes := by
  obtain ⟨tx, hl⟩ := live_of_answers rfl h
  obtain ⟨hr, hx⟩ := (c.answers_iff rs).1 h
  cases hp : tx.put (c.before rs i).store k v with
  | error e =>
      rw [step_txPut_of_error hl hp] at hx
      cases hx
  | ok q =>
      refine ⟨q.2, ?_, ?_⟩
      · rw [before_succ c rs hr, step_txPut_of_ok hl hp]
        simp
      · rw [Transaction.put_writes hp]
        simp

/-- From its put of a key on, a pessimistic transaction owns the key for as long as it is open. -/
theorem locks_of_txPut {settings : Settings} (hc : settings.concurrency = .pessimistic) {v : Value}
    (hput : (ofSettings settings).Answers rs p (.txPut t k v) (.ok ())) (hpi : p < i)
    {tx : Transaction} (hl : ((ofSettings settings).before rs i).live[t]? = some tx) :
    ((ofSettings settings).before rs i).store.locks[k]? = some t := by
  obtain ⟨tx₀, hl₀, hw₀⟩ := writes_of_txPut hput
  have hheld₀ : k ∈ tx₀.held := (holdsWrites_before hc rs (p + 1) t tx₀ hl₀ k).1 hw₀
  have hheld : k ∈ tx.held :=
    held_before_mono (numbered_ofSettings settings) (by omega) hl₀ hheld₀ hl
  exact (locksOwned_before settings rs i k t).2 ⟨tx, hl, hheld⟩

/-- A pessimistic commit writes keys that its transaction owns. -/
theorem CommitsKey.locks {settings : Settings} (hc : settings.concurrency = .pessimistic)
    (h : (ofSettings settings).CommitsKey rs i t k) :
    ((ofSettings settings).before rs i).store.locks[k]? = some t := by
  obtain ⟨tx, hl, hw⟩ := h.writes
  have hheld : k ∈ tx.held := (holdsWrites_before hc rs i t tx hl k).1 hw
  exact (locksOwned_before settings rs i k t).2 ⟨tx, hl, hheld⟩

/-- From its put of a key to the end of its commit a pessimistic transaction is the only one whose
commit writes the key. -/
theorem commitsKey_unique {settings : Settings} (hc : settings.concurrency = .pessimistic)
    {v : Value} (hput : (ofSettings settings).Answers rs p (.txPut t k v) (.ok ()))
    (hcommit : (ofSettings settings).Answers rs j (.commit t) (.ok ())) (hpi : p < i) (hij : i ≤ j)
    {t' : TxId} (hk : (ofSettings settings).CommitsKey rs i t' k) : t' = t := by
  obtain ⟨tx₀, hl₀, -⟩ := writes_of_txPut hput
  obtain ⟨txⱼ, hlⱼ⟩ := live_of_answers rfl hcommit
  -- the transaction is open at its commit, hence at `i`, and still owns the key there
  obtain ⟨tx, hl⟩ := live_before_between (numbered_ofSettings settings) (Nat.succ_le_of_lt hpi)
    hij hl₀ hlⱼ
  exact Option.some.inj ((hk.locks hc).symm.trans (locks_of_txPut hc hput hpi hl))

/-- Transaction `t` updates the key `k`: it gets it from the store at instant `g`, puts it at `p`
and commits at `j`. -/
structure Updates (c : Cache) (rs : List Request) (t : TxId) (k : Key) (g p j : Nat) : Prop where
  get : ∃ v, c.Answers rs g (.txGet t k) (.ok v)
  /-- The value is not one of its own puts. -/
  unbuffered : ∀ i < g, ∀ v, ¬ c.Answers rs i (.txPut t k v) (.ok ())
  get_lt_put : g < p
  put : ∃ v, c.Answers rs p (.txPut t k v) (.ok ())
  put_lt_commit : p < j
  commit : c.Answers rs j (.commit t) (.ok ())

/-- Whatever other transactions write to a key between the get and the commit of an update of it,
they write before the put. -/
theorem foreign_writes_precede_put (settings : Settings)
    (hc : settings.concurrency = .pessimistic) (rs : List Request) (t : TxId) (k : Key)
    (g p j : Nat) (hu : (ofSettings settings).Updates rs t k g p j) :
    ∀ i t', g ≤ i → i < j → t' ≠ t → (ofSettings settings).CommitsKey rs i t' k → i < p := by
  intro i t' _ hij ht hk
  by_contra hip
  obtain ⟨v, hput⟩ := hu.put
  have hne : p ≠ i := by
    rintro rfl
    cases ((answers_iff _ rs).1 hput).1.symm.trans hk.1
  exact ht (commitsKey_unique hc hput hu.commit (by omega) (by omega) hk)

/-- Two transactions update one key; the second commits between the get and the put of the
first. -/
def lostUpdate : List Request :=
  [.begin, .txGet 1 7, .begin, .txPut 2 7 (.int 5), .commit 2, .txPut 1 7 (.int 6), .commit 1]

def lockingSettings : Settings :=
  { name := "transactional", transactional := true, concurrency := .pessimistic }

theorem updates_lostUpdate : (ofSettings lockingSettings).Updates lostUpdate 1 7 1 5 6 where
  get := ⟨none, rfl⟩
  unbuffered i hi v h := by
    obtain rfl : i = 0 := by omega
    cases ((answers_iff _ _).1 h).1
  get_lt_put := by decide
  put := ⟨.int 6, rfl⟩
  put_lt_commit := by decide
  commit := rfl

theorem commitsKey_lostUpdate : (ofSettings lockingSettings).CommitsKey lostUpdate 4 2 7 :=
  ⟨rfl, _, Batch.ofList [(7, .int 5)], rfl, rfl, by decide⟩

theorem foreign_writes_precede_put_lostUpdate :
    (ofSettings lockingSettings).Updates lostUpdate 1 7 1 5 6 ∧
      ∀ i t', 1 ≤ i → i < 6 → t' ≠ 1 →
        (ofSettings lockingSettings).CommitsKey lostUpdate i t' 7 → i < 5 :=
  ⟨updates_lostUpdate,
    foreign_writes_precede_put lockingSettings rfl lostUpdate 1 7 1 5 6 updates_lostUpdate⟩

/-- A get does not keep other transactions from writing its key. -/
theorem update_not_protected_from_get :
    ¬ ∀ settings : Settings, settings.transactional = true →
      settings.concurrency = .pessimistic →
      settings.isolation = .repeatableRead ∨ settings.isolation = .serializable →
      ∀ rs t k g p j, (ofSettings settings).Updates rs t k g p j →
        ∀ i t', g ≤ i → i < j → t' ≠ t → ¬ (ofSettings settings).CommitsKey rs i t' k := by
  intro h
  exact h lockingSettings rfl rfl (.inl rfl) lostUpdate 1 7 1 5 6 updates_lostUpdate 4 2
    (by decide) (by decide) (by decide) commitsKey_lostUpdate

end Cache

end CacheBench
