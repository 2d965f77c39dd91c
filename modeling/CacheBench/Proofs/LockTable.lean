import CacheBench.Proofs.BulkPut

/-!
# What the lock table says and what it is good for

`LockDiscipline` collects what holds of the locks of a cache after any run: who owns a key, when a
put is refused and what it leaves, and what the end of a transaction gives up. A lock keeps other
transactions from writing its key until its owner ends. It does not keep off the puts from outside,
which take no lock: `overwritten` is a run in which such a put changes a locked key.
-/

namespace CacheBench

open Std (TreeMap)

namespace Cache

/-- What holds of the locks of a cache. -/
structure LockDiscipline (c : Cache) : Prop where
  owned : c.LocksOwned
  one_owner : ∀ (k : Key) (t t' : TxId) (tx tx' : Transaction), c.live[t]? = some tx →
    c.live[t']? = some tx' → k ∈ tx.held → k ∈ tx'.held → t = t'
  empty_of_optimistic : c.store.settings.concurrency = .optimistic → c.store.locks.isEmpty
  empty_of_idle : c.live.isEmpty → c.store.locks.isEmpty
  holdsWrites : c.store.settings.concurrency = .pessimistic → c.HoldsWrites
  commit_owns : c.store.settings.concurrency = .pessimistic → ∀ t b, c.batch? (.commit t) = some b →
    ∀ k ∈ b, c.store.locks[k]? = some t
  /-- An open transaction's put of a key fails exactly while another one holds the key. -/
  put_fails_iff : ∀ t ∈ c.live, ∀ (k : Key) (v : Value) (e : CacheError),
    (c.step (.txPut t k v)).1 = .error e ↔ e = .lockTimeout k c.store.settings.lockTimeout ∧
      ∃ t' tx', t' ≠ t ∧ c.live[t']? = some tx' ∧ k ∈ tx'.held
  put_fails : ∀ t k v e, (c.step (.txPut t k v)).1 = .error e → (c.step (.txPut t k v)).2 = c
  putAll_fails : ∀ (t : TxId) (tx : Transaction) (b : Batch) (meanwhile : List (List Request))
    (g : Generator) (e : Fault WorkError) (out : (Cache × List (List Request)) × Generator),
    c.live[t]? = some tx → (∀ rs ∈ meanwhile, ∀ r ∈ rs, r.tx? ≠ some t) →
      (Work.txPutAll t b).run.run amongOthers.withGenerator ((c, meanwhile), g) =
        (.error e, out) →
      ∃ k tx', e = .error (.cache (.lockTimeout k c.store.settings.lockTimeout)) ∧
        c.StoppedAt t tx b k out.1.1 tx'
  /-- Every end of a transaction gives up its locks and no others. -/
  released : ∀ t ∈ c.live, ∀ r : Request, r.Ends t → t ∉ (c.step r).2.live ∧
    ∀ k : Key, (c.step r).2.store.locks[k]? =
      if c.store.locks[k]? = some t then none else c.store.locks[k]?

variable {c : Cache} {t : TxId} {tx : Transaction}

theorem LocksOwned.one_owner (h : c.LocksOwned) {k : Key} {t' : TxId} {tx' : Transaction}
    (hl : c.live[t]? = some tx) (hl' : c.live[t']? = some tx') (hk : k ∈ tx.held)
    (hk' : k ∈ tx'.held) : t = t' :=
  Option.some.inj (((h k t).2 ⟨tx, hl, hk⟩).symm.trans ((h k t').2 ⟨tx', hl', hk'⟩))

theorem LocksOwned.isEmpty (h : c.LocksOwned)
    (hheld : ∀ (t : TxId) (tx : Transaction), c.live[t]? = some tx → tx.held = []) :
    c.store.locks.isEmpty := by
  rw [TreeMap.isEmpty_iff_forall_not_mem]
  intro k hk
  obtain ⟨t, ht⟩ := Option.isSome_iff_exists.1 (TreeMap.mem_iff_isSome_getElem?.1 hk)
  obtain ⟨tx, hl, hkey⟩ := (h k t).1 ht
  rw [hheld t tx hl] at hkey
  cases hkey

theorem LocksOwned.released (h : c.LocksOwned) (hn : c.Numbered) (hl : c.live[t]? = some tx)
    {r : Request} (hr : r.Ends t) (k : Key) : (c.step r).2.store.locks[k]? =
      if c.store.locks[k]? = some t then none else c.store.locks[k]? := by
  -- closing frees the held keys that are locked, and every locked key is held
  have hheld : k ∈ tx.held ∧ c.store.locks[k]? = some t ↔ c.store.locks[k]? = some t := by
    rw [and_iff_right_iff_imp]
    intro hk
    obtain ⟨tx', hl', hk'⟩ := (h k t).1 hk
    obtain rfl : tx = tx' := Option.some.inj (hl.symm.trans hl')
    exact hk'
  rw [step_of_ends hl hr, Transaction.close, Store.locks_unlock, (hn t tx hl).1,
    Store.locks_applied]
  simp only [hheld]

theorem LocksOwned.put_fails_iff (h : c.LocksOwned) (hn : c.Numbered)
    (hoptimistic : c.store.settings.concurrency = .optimistic →
      ∀ (t : TxId) (tx : Transaction), c.live[t]? = some tx → tx.held = [])
    (hl : c.live[t]? = some tx) (k : Key) (v : Value) (e : CacheError) :
    (c.step (.txPut t k v)).1 = .error e ↔ e = .lockTimeout k c.store.settings.lockTimeout ∧
      ∃ t' tx', t' ≠ t ∧ c.live[t']? = some tx' ∧ k ∈ tx'.held := by
  have hstep : (c.step (.txPut t k v)).1 = .error e ↔ tx.put c.store k v = .error e := by
    cases hp : tx.put c.store k v with
    | ok p => simp [step_txPut_of_ok hl hp]
    | error e' => simp [step_txPut_of_error hl hp]
  have hlock : c.store.lock? k tx.id = none ↔
      ∃ t' tx', t' ≠ t ∧ c.live[t']? = some tx' ∧ k ∈ tx'.held := by
    rw [Store.lock?_eq_none_iff, (hn t tx hl).1]
    simp only [h k, exists_and_left]
  rw [hstep, Transaction.put_eq_error_iff, hlock]
  constructor
  · rintro ⟨-, -, hother, he⟩
    exact ⟨he, hother⟩
  · rintro ⟨he, t', tx', hne, hl', hk'⟩
    refine ⟨?_, ?_, ⟨t', tx', hne, hl', hk'⟩, he⟩
    · cases hc : c.store.settings.concurrency with
      | pessimistic => rfl
      | optimistic =>
          rw [hoptimistic hc t' tx' hl'] at hk'
          cases hk'
    · exact fun hk => hne (h.one_owner hl' hl hk' hk)

theorem put_fails {k : Key} {v : Value} {e : CacheError}
    (he : (c.step (.txPut t k v)).1 = .error e) : (c.step (.txPut t k v)).2 = c := by
  cases hl : c.live[t]? with
  | none => rw [step_of_not_live hl rfl]
  | some tx =>
      cases hp : tx.put c.store k v with
      | error e' => rw [step_txPut_of_error hl hp]
      | ok p =>
          rw [step_txPut_of_ok hl hp] at he
          cases he

/-- After any run the locks of a cache are in order. -/
theorem lockDiscipline_run (settings : Settings) (rs : List Request) :
    ((ofSettings settings).run rs).2.LockDiscipline := by
  rw [← before_length]
  have hn := numbered_before _ rs (numbered_ofSettings settings) rs.length
  have ho := locksOwned_before settings rs rs.length
  have hsettings := settings_before (ofSettings settings) rs rs.length
  have hnone : settings.concurrency = .optimistic →
      ∀ (t : TxId) (tx : Transaction),
        ((ofSettings settings).before rs rs.length).live[t]? = some tx → tx.held = [] :=
    fun hc _ tx hl => held_eq_nil hc _ tx hl
  have hwrites : settings.concurrency = .pessimistic →
      ((ofSettings settings).before rs rs.length).HoldsWrites :=
    fun hc => holdsWrites_before hc rs rs.length
  have hconcurrency := congrArg Settings.concurrency hsettings
  rw [← settings_ofSettings settings, ← hconcurrency] at hnone hwrites
  refine ⟨ho, ?_, ?_, ?_, hwrites, ?_, ?_, ?_, ?_, ?_⟩
  · intro k t t' tx tx' hl hl' hk hk'
    exact ho.one_owner hl hl' hk hk'
  · intro hc
    exact ho.isEmpty (hnone hc)
  · intro hidle
    apply ho.isEmpty
    intro t tx hl
    rw [TreeMap.getElem?_of_isEmpty hidle] at hl
    cases hl
  · intro hc t b hb k hk
    obtain ⟨tx, hl, hw⟩ := mem_writes_of_batch? hb hk
    exact (ho k t).2 ⟨tx, hl, (hwrites hc t tx hl k).1 hw⟩
  · intro t ht k v e
    obtain ⟨tx, hl⟩ := exists_live ht
    exact ho.put_fails_iff hn hnone hl k v e
  · intro t k v e he
    exact put_fails he
  · intro t tx b meanwhile g e out hl hothers h
    exact stoppedAt_of_txPutAll hn ho hl hothers h
  · intro t ht r hr
    obtain ⟨tx, hl⟩ := exists_live ht
    refine ⟨?_, ho.released hn hl hr⟩
    rw [step_of_ends hl hr]
    simp

/-- One of two open transactions has put the key `7`. -/
def contended : List Request := [.begin, .begin, .txPut 1 7 (.int 6)]

/-- The key is locked, so a put of it by the other transaction is refused, and so is its batch,
which leaves the smaller key locked. -/
theorem lockDiscipline_run_contended :
    let c := ((ofSettings lockingSettings).run contended).2
    let b := Batch.ofList [(9, .int 2), (7, .int 5), (3, .int 1)]
    let refusal : CacheError := .lockTimeout 7 lockingSettings.lockTimeout
    let putAll := (Work.txPutAll 2 b).run.run amongOthers.withGenerator ((c, []), .seeded 42)
    c.LockDiscipline ∧ c.store.locks[(7 : Key)]? = some 1 ∧
      (c.step (.txPut 2 7 (.int 5))).1 = .error refusal ∧
      putAll.1 = .error (.error (.cache refusal)) ∧
      putAll.2.1.1.store.locks.toList = [(3, 2), (7, 1)] := by
  intro c b refusal putAll
  exact ⟨lockDiscipline_run lockingSettings contended, by decide, by decide, by decide, by decide⟩
/-! ## Writes to a locked key -/

variable {rs : List Request} {k : Key} {p i : Nat}

/-- Transaction `t` has put the key `k` at instant `p`, and no request has ended it before `i`. -/
structure Holding (c : Cache) (rs : List Request) (t : TxId) (k : Key) (p i : Nat) : Prop where
  put : ∃ v, c.Answers rs p (.txPut t k v) (.ok ())
  lt : p < i
  unended : ∀ m, p < m → m < i → ∀ r, rs[m]? = some r → ¬ r.Ends t

theorem Holding.locks {settings : Settings} (hc : settings.concurrency = .pessimistic)
    (h : (ofSettings settings).Holding rs t k p i) :
    ((ofSettings settings).before rs i).store.locks[k]? = some t := by
  obtain ⟨v, hput⟩ := h.put
  obtain ⟨tx₀, hl₀, -⟩ := writes_of_txPut hput
  obtain ⟨tx, hl⟩ := live_before_of_not_ended (numbered_ofSettings settings)
    (Nat.succ_le_of_lt h.lt) hl₀ fun m hpm hmi => h.unended m hpm hmi
  exact locks_of_txPut hc hput h.lt hl

/-- A request that changes the entry of a key applies a batch with the key. -/
theorem writesAt_of_latest_ne (c : Cache)
    (h : (c.before rs (i + 1)).store.entries.latest[k]? ≠
      (c.before rs i).store.entries.latest[k]?) :
    c.WritesAt rs i k := by
  by_contra hno
  refine h (latest_before_of_not_written c rs (Nat.le_succ i) fun n hin hni => ?_)
  obtain rfl : n = i := by omega
  exact hno

/-- While a pessimistic transaction holds a key, the entry of the key is changed by the commit of
the transaction and by puts of the key from outside, and by nothing else. -/
theorem held_key_changed_by (settings : Settings) (hc : settings.concurrency = .pessimistic)
    (rs : List Request) (t : TxId) (k : Key) (p i : Nat)
    (hh : (ofSettings settings).Holding rs t k p i) (r : Request) (hr : rs[i]? = some r)
    (hchange : ((ofSettings settings).before rs (i + 1)).store.entries.latest[k]? ≠
      ((ofSettings settings).before rs i).store.entries.latest[k]?) :
    r = .commit t ∨ (∃ v, r = .put k v) ∨ ∃ b : Batch, k ∈ b ∧ r = .putAll b := by
  have hwrites := writesAt_of_latest_ne _ hchange
  obtain ⟨r', b, hr', hb, hk⟩ := hwrites
  obtain rfl : r = r' := Option.some.inj (hr.symm.trans hr')
  cases r with
  | get _ | query _ | size | begin | txGet _ _ | txPut _ _ _ | rollback _ | drop _ => cases hb
  | put a v =>
      obtain rfl := Option.some.inj hb
      obtain rfl := Batch.mem_ofList_singleton.1 hk
      exact .inr (.inl ⟨v, rfl⟩)
  | putAll b' =>
      by_cases hempty : b'.isEmpty
      · simp [batch?, hempty] at hb
      · simp only [batch?, hempty] at hb
        obtain rfl := Option.some.inj hb
        exact .inr (.inr ⟨b', hk, rfl⟩)
  | commit t' =>
      -- a transaction commits keys that it owns, and the owner of this one is `t`
      have hcommits : (ofSettings settings).CommitsKey rs i t' k :=
        ⟨hr, writesAt_of_latest_ne _ hchange⟩
      obtain rfl := Option.some.inj ((hcommits.locks hc).symm.trans (hh.locks hc))
      exact .inl rfl

/-- A put from outside between the put of a transaction and its commit. -/
def overwritten : List Request := [.begin, .txPut 1 7 (.int 6), .put 7 (.int 5), .commit 1]

theorem holding_overwritten : (ofSettings lockingSettings).Holding overwritten 1 7 1 2 where
  put := ⟨.int 6, rfl⟩
  lt := by decide
  unended m hpm hmi := by omega

theorem latest_changed_overwritten :
    ((ofSettings lockingSettings).before overwritten 3).store.entries.latest[(7 : Key)]? ≠
      ((ofSettings lockingSettings).before overwritten 2).store.entries.latest[(7 : Key)]? := by
  decide

theorem held_key_changed_by_overwritten :
    ((ofSettings lockingSettings).Holding overwritten 1 7 1 2 ∧
      ((ofSettings lockingSettings).before overwritten 3).store.entries.latest[(7 : Key)]? ≠
        ((ofSettings lockingSettings).before overwritten 2).store.entries.latest[(7 : Key)]?) ∧
    (Request.put 7 (.int 5) = .commit 1 ∨ (∃ v, Request.put 7 (.int 5) = .put 7 v) ∨
      ∃ b : Batch, 7 ∈ b ∧ Request.put 7 (.int 5) = .putAll b) :=
  ⟨⟨holding_overwritten, latest_changed_overwritten⟩,
    held_key_changed_by lockingSettings rfl overwritten 1 7 1 2 holding_overwritten _ rfl
      latest_changed_overwritten⟩

/-- A lock does not keep puts from outside off its key. -/
theorem held_key_not_protected_from_put :
    ¬ ∀ settings : Settings, settings.transactional = true →
      settings.concurrency = .pessimistic →
      ∀ rs t k p i, (ofSettings settings).Holding rs t k p i → ∀ r, rs[i]? = some r →
        ((ofSettings settings).before rs (i + 1)).store.entries.latest[k]? ≠
          ((ofSettings settings).before rs i).store.entries.latest[k]? → r = .commit t := by
  intro h
  cases h lockingSettings rfl rfl overwritten 1 7 1 2 holding_overwritten _ rfl
    latest_changed_overwritten

end Cache

end CacheBench
