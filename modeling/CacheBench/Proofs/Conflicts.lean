import CacheBench.Proofs.Calls
import CacheBench.Proofs.Locking
import CacheBench.Proofs.ReadOnly

/-!
# When an optimistic commit conflicts

A get is a read of the store if the transaction has neither put the key nor got it before. An open
transaction keeps the version that each such read found, whatever the isolation. Versions of a key
change exactly when it is written, so comparing them at the commit of a writer finds the reads that
were overwritten. `StaleRead` is such a read of a key that counts: one that the transaction has
put, or any key in a serializable cache. A commit that finds one leaves the store as it is.
-/

namespace CacheBench

open Std (TreeMap)

namespace Call

theorem mem_foldl_buffer {w : Batch} (calls : List Call) {k : Key} (hk : k ∈ w) :
    k ∈ calls.foldl buffer w := by
  induction calls generalizing w with
  | nil => exact hk
  | cons x calls ih =>
      apply ih
      cases x with
      | get a answer => exact hk
      | put a v => exact TreeMap.mem_insert.2 (.inr hk)

end Call

namespace Cache

variable {settings : Settings} {rs : List Request} {t : TxId}

theorem mem_buffered_mono (c : Cache) {i j : Nat} (hij : i ≤ j) {k : Key}
    (hk : k ∈ c.buffered rs t i) : k ∈ c.buffered rs t j := by
  have hcalls : c.calls rs t j =
      c.calls rs t i ++ (((c.run rs).1.take j).drop i).filterMap (Exchange.call? t) := by
    have htake : (c.run rs).1.take i = ((c.run rs).1.take j).take i := by
      rw [List.take_take, Nat.min_eq_left hij]
    rw [calls, calls, htake, ← List.filterMap_append, List.take_append_drop]
  rw [buffered, hcalls, List.foldl_append]
  exact Call.mem_foldl_buffer _ hk

def FirstRead (c : Cache) (rs : List Request) (t : TxId) (i : Nat) (k : Key) : Prop :=
  c.FirstGet rs t i k ∧ k ∉ c.buffered rs t i

/-- The versions that an open transaction keeps are those at its first reads from the store. -/
structure Tracks (c : Cache) (rs : List Request) (t : TxId) (n : Nat) (tx : Transaction) :
    Prop where
  read : ∀ (k : Key) (r : Version), tx.readVersions[k]? = some r →
    ∃ i < n, c.FirstRead rs t i k ∧ (c.before rs i).store.entries.version k = r
  /-- A key without a version has been got from the puts alone. -/
  unread : ∀ k : Key, tx.readVersions[k]? = none →
    ∀ i < n, ∀ v, c.Answers rs i (.txGet t k) (.ok v) → k ∈ c.buffered rs t i
  seen : ∀ (k : Key) (v : Option Value), tx.snapshot[k]? = some v → tx.readVersions[k]? ≠ none

variable {c : Cache} {n : Nat} {tx tx' : Transaction}

theorem Tracks.idle (h : c.Tracks rs t n tx) (hversions : tx'.readVersions = tx.readVersions)
    (hsnapshot : tx'.snapshot = tx.snapshot)
    (hget : ∀ k v, c.Answers rs n (.txGet t k) (.ok v) → tx.readVersions[k]? = none →
      k ∈ c.buffered rs t n) : c.Tracks rs t (n + 1) tx' := by
  refine ⟨?_, ?_, ?_⟩
  · intro k r hk
    rw [hversions] at hk
    obtain ⟨i, hin, hread⟩ := h.read k r hk
    exact ⟨i, Nat.lt_succ_of_lt hin, hread⟩
  · intro k hk i hin v hv
    rw [hversions] at hk
    rcases Nat.lt_succ_iff_lt_or_eq.1 hin with hin | rfl
    · exact h.unread k hk i hin v hv
    · exact hget k v hv hk
  · rw [hversions, hsnapshot]
    exact h.seen

/-- The first read of a key from the store finds its version. A later one leaves the versions as
they are. -/
theorem Tracks.observe (h : c.Tracks rs t n tx) {k : Key} {v : Option Value}
    (hv : c.Answers rs n (.txGet t k) (.ok v)) (hk : k ∉ c.buffered rs t n) :
    c.Tracks rs t (n + 1) (tx.observe (c.before rs n).store k) := by
  refine ⟨?_, ?_, ?_⟩
  · intro a r ha
    rw [Transaction.observe_readVersions] at ha
    split at ha
    · rename_i hnew
      obtain ⟨rfl, hnone⟩ := hnew
      refine ⟨n, Nat.lt_succ_self n, ⟨⟨⟨v, hv⟩, ?_⟩, hk⟩, Option.some.inj ha⟩
      intro i hin w hw
      exact hk (c.mem_buffered_mono (Nat.le_of_lt hin) (h.unread k hnone i hin w hw))
    · obtain ⟨i, hin, hread⟩ := h.read a r ha
      exact ⟨i, Nat.lt_succ_of_lt hin, hread⟩
  · intro a ha i hin w hw
    rw [Transaction.observe_readVersions] at ha
    split at ha
    · cases ha
    · rename_i hnew
      rcases Nat.lt_succ_iff_lt_or_eq.1 hin with hin | rfl
      · exact h.unread a ha i hin w hw
      · -- the get of this instant is the one of `k`
        cases ((answers_iff c rs).1 hw).1.symm.trans ((answers_iff c rs).1 hv).1
        exact absurd ⟨rfl, ha⟩ hnew
  · intro a w ha
    rw [Transaction.observe_readVersions]
    split
    · exact Option.some_ne_none _
    · rename_i hnew
      rcases Transaction.observe_snapshot_eq_some ha with rfl | ha
      · exact fun hnone => hnew ⟨rfl, hnone⟩
      · exact h.seen a w ha

theorem tracks_before (n : Nat) (tx : Transaction)
    (hl : ((ofSettings settings).before rs n).live[t]? = some tx) :
    (ofSettings settings).Tracks rs t n tx := by
  refine live_induction (P := (ofSettings settings).Tracks rs t) settings rs t ?_ ?_ ?_ n tx hl
  · intro n ht _
    refine ⟨?_, ?_, ?_⟩
    · intro k r hk
      simp at hk
    · intro k _ i hin v hv
      exact (not_answers_of_not_begun ht (Nat.le_of_lt_succ hin) rfl v hv).elim
    · intro k v hk
      simp at hk
  · intro n r tx tx' hl hr ht hs ih
    have hno : ∀ {k v}, r = .txPut t k v →
        ∀ a w, ¬ (ofSettings settings).Answers rs n (.txGet t a) (.ok w) := by
      rintro k v rfl a w hw
      cases ((answers_iff _ rs).1 hw).1.symm.trans hr
    rcases calls_step hl hr ht hs with ⟨k, rfl, rfl, -⟩ | ⟨k, v, s', rfl, hp, -⟩ |
      ⟨rfl, ⟨k, v, rfl⟩, -⟩
    · have hwrites := writes_eq_buffered n tx hl
      cases hm : tx.remembered? ((ofSettings settings).before rs n).store k with
      | none =>
          rw [Transaction.get_of_not_remembered hm]
          refine ih.observe (v := ((ofSettings settings).before rs n).store.get k) ?_ ?_
          · rw [answers_iff, step_txGet hl, Transaction.get_of_not_remembered hm]
            exact ⟨hr, rfl⟩
          · intro hk
            rw [← hwrites] at hk
            obtain ⟨w, hw⟩ := Option.isSome_iff_exists.1 (TreeMap.mem_iff_isSome_getElem?.1 hk)
            rw [Transaction.remembered?_of_write hw] at hm
            cases hm
      | some w =>
          rw [Transaction.get_of_remembered hm]
          refine ih.idle rfl rfl ?_
          intro a v hv hnone
          cases ((answers_iff _ rs).1 hv).1.symm.trans hr
          -- without a version the key is not in the snapshot, so it was answered from the writes
          rw [← hwrites]
          cases hw : tx.writes[k]? with
          | some u => exact TreeMap.mem_iff_isSome_getElem?.2 (by rw [hw]; rfl)
          | none =>
              rw [Transaction.remembered?_of_no_write hw] at hm
              split at hm
              · exact absurd hnone (ih.seen k w hm)
              · cases hm
    · exact ih.idle (Transaction.put_readVersions hp) (Transaction.put_snapshot hp)
        fun a w hw => absurd hw (hno rfl a w)
    · exact ih.idle rfl rfl fun a w hw => absurd hw (hno rfl a w)
  · intro n tx hr ih
    refine ih.idle rfl rfl fun k v hv => ?_
    exact absurd rfl (hr _ ((answers_iff _ rs).1 hv).1)

theorem readVersions_eq_some_iff (hl : ((ofSettings settings).before rs n).live[t]? = some tx)
    {k : Key} {r : Version} :
    tx.readVersions[k]? = some r ↔ ∃ i < n, (ofSettings settings).FirstRead rs t i k ∧
      ((ofSettings settings).before rs i).store.entries.version k = r := by
  have h := tracks_before n tx hl
  constructor
  · exact h.read k r
  · rintro ⟨i, hin, hread, rfl⟩
    cases hk : tx.readVersions[k]? with
    | none =>
        obtain ⟨v, hv⟩ := hread.1.1
        exact absurd (h.unread k hk i hin v hv) hread.2
    | some r =>
        obtain ⟨j, -, hread', rfl⟩ := h.read k r hk
        rw [hread.1.unique hread'.1]

/-! ## The outcome of a commit -/

/-- Transaction `t` read the key `k` from the store at instant `i`, the key has been written since,
and the read counts when `t` commits at instant `n`. -/
structure StaleRead (c : Cache) (rs : List Request) (t : TxId) (n : Nat) (k : Key) (i : Nat) :
    Prop where
  read : c.FirstRead rs t i k
  counts : c.store.settings.isolation = .serializable ∨ k ∈ c.buffered rs t n
  written : ∃ m, i ≤ m ∧ m < n ∧ c.WritesAt rs m k

/-- The versions that a commit compares differ exactly at the stale reads. -/
theorem changed_iff_staleRead (hw : ((ofSettings settings).batches rs).length < 2 ^ 64 - 1)
    (hl : ((ofSettings settings).before rs n).live[t]? = some tx) {k : Key} {r : Version} :
    (tx.readVersions[k]? = some r ∧ tx.checked ((ofSettings settings).before rs n).store k ∧
        ((ofSettings settings).before rs n).store.entries.version k ≠ r) ↔
      ∃ i, (ofSettings settings).StaleRead rs t n k i ∧
        ((ofSettings settings).before rs i).store.entries.version k = r := by
  have hchecked : tx.checked ((ofSettings settings).before rs n).store k ↔
      settings.isolation = .serializable ∨ k ∈ (ofSettings settings).buffered rs t n := by
    rw [← writes_eq_buffered n tx hl]
    simp [Transaction.checked]
  have hwritten : ∀ i, i ≤ n → (((ofSettings settings).before rs n).store.entries.version k ≠
      ((ofSettings settings).before rs i).store.entries.version k ↔
        ∃ m, i ≤ m ∧ m < n ∧ (ofSettings settings).WritesAt rs m k) := by
    intro i hin
    rw [ne_eq, version_before_eq_iff hw hin k]
    push Not
    rfl
  rw [readVersions_eq_some_iff hl, hchecked]
  constructor
  · rintro ⟨⟨i, hin, hread, rfl⟩, hcounts, hne⟩
    exact ⟨i, ⟨hread, hcounts, (hwritten i (Nat.le_of_lt hin)).1 hne⟩, rfl⟩
  · rintro ⟨i, ⟨hread, hcounts, m, him, hmn, hk⟩, rfl⟩
    have hin : i < n := Nat.lt_of_le_of_lt him hmn
    exact ⟨⟨i, hin, hread, rfl⟩, hcounts, (hwritten i (Nat.le_of_lt hin)).2 ⟨m, him, hmn, hk⟩⟩

/-- What the commit of transaction `t` at instant `n` comes back with, and what it leaves. -/
structure CommitOutcome (c : Cache) (rs : List Request) (t : TxId) (n : Nat)
    (x : Except CacheError Unit) : Prop where
  ok_iff : x = .ok () ↔ ∀ k i, ¬ c.StaleRead rs t n k i
  applied : x = .ok () → ∃ version : Version,
    (∀ m ≤ n, ∀ k, (c.before rs m).store.entries.version k ≠ version) ∧
      ∀ (k : Key) (v : Value), (c.buffered rs t n)[k]? = some v →
        (c.before rs (n + 1)).store.entries.latest[k]? = some ⟨version, v⟩
  refused : ∀ e, x = .error e → (c.before rs (n + 1)).store = (c.before rs n).store ∧
    ∃ k i, c.StaleRead rs t n k i ∧
      e = .writeConflict k ((c.before rs i).store.entries.version k)
        ((c.before rs n).store.entries.version k)

theorem latest_before_succ_of_commit (hl : ((ofSettings settings).before rs n).live[t]? = some tx)
    (hr : rs[n]? = some (.commit t)) (hwrites : ¬ tx.writes.isEmpty)
    (hok : (tx.commit ((ofSettings settings).before rs n).store).1 = .ok ()) {k : Key} {v : Value}
    (hk : tx.writes[k]? = some v) :
    ((ofSettings settings).before rs (n + 1)).store.entries.latest[k]? =
      some ⟨((ofSettings settings).before rs n).store.nextVersion, v⟩ := by
  rw [before_succ _ rs hr, entries_step, batch?_commit hl, Transaction.batch?_of_ok hok hwrites,
    Store.applied_some, Store.apply, Entries.latest_putAll, hk]

theorem store_before_succ_of_refused (hc : settings.concurrency = .optimistic)
    (hl : ((ofSettings settings).before rs n).live[t]? = some tx) (hr : rs[n]? = some (.commit t))
    {e : CacheError} (he : (tx.commit ((ofSettings settings).before rs n).store).1 = .error e) :
    ((ofSettings settings).before rs (n + 1)).store =
      ((ofSettings settings).before rs n).store := by
  rw [before_succ _ rs hr, step_commit hl, Transaction.commit_store, Transaction.batch?_of_error he]
  exact Transaction.close_of_held_nil (held_eq_nil hc n tx hl)

/-- The commit of an optimistic writer succeeds exactly when none of its reads that count has been
overwritten. It then applies the last put of each key under a new version. Otherwise it names a
read that was overwritten, with the version at that read and the present one, and changes
nothing. -/
theorem optimistic_commit_outcome (settings : Settings) (hc : settings.concurrency = .optimistic)
    (rs : List Request) (hw : ((ofSettings settings).batches rs).length < 2 ^ 64 - 1) (t : TxId)
    (n : Nat) (ht : t ∈ ((ofSettings settings).before rs n).live)
    (hput : ¬ ((ofSettings settings).buffered rs t n).isEmpty) (x : Except CacheError Unit)
    (hx : (ofSettings settings).Answers rs n (.commit t) x) :
    (ofSettings settings).CommitOutcome rs t n x := by
  obtain ⟨tx, hl⟩ := exists_live ht
  obtain ⟨hr, hx⟩ := (answers_iff _ rs).1 hx
  rw [step_commit hl] at hx
  subst hx
  have hwrites := writes_eq_buffered n tx hl
  rw [← hwrites] at hput
  have hc' : ((ofSettings settings).before rs n).store.settings.concurrency = .optimistic := by
    rwa [settings_before]
  refine ⟨?_, ?_, ?_⟩
  · rw [Transaction.commit_ok_iff hc' hput, Transaction.conflict?_eq_none_iff]
    constructor
    · intro hsame k i hstale
      obtain ⟨hread, hchecked, hne⟩ := (changed_iff_staleRead hw hl).2 ⟨i, hstale, rfl⟩
      exact hne (hsame k _ hread hchecked)
    · intro hfresh k r hread hchecked
      by_contra hne
      obtain ⟨i, hstale, -⟩ := (changed_iff_staleRead hw hl).1 ⟨hread, hchecked, hne⟩
      exact hfresh k i hstale
  · intro hok
    refine ⟨((ofSettings settings).before rs n).store.nextVersion, ?_, ?_⟩
    · -- versions grow, and the next one is above all that the store has at the commit
      intro m hmn k he
      have hmono := version_before_mono hw hmn k
      have hnext := version_lt_nextVersion hw n k
      rw [he] at hmono
      omega
    · intro k v hk
      exact latest_before_succ_of_commit hl hr hput hok (by rw [hwrites, hk])
  · intro e he
    refine ⟨store_before_succ_of_refused hc hl hr he, ?_⟩
    obtain ⟨k, r, hread, hchecked, hne, rfl⟩ :=
      Transaction.conflict?_eq_some ((Transaction.commit_error_iff hc' hput).1 he)
    obtain ⟨i, hstale, rfl⟩ := (changed_iff_staleRead hw hl).1 ⟨hread, hchecked, hne⟩
    exact ⟨k, i, hstale, rfl⟩

/-- The first transaction reads `8` and `9`, and the second puts both before the first puts `9`. -/
def overtaken : List Request :=
  [.begin, .txGet 1 8, .begin, .txGet 1 9, .txPut 2 8 (.int 4), .txPut 2 9 (.int 5), .commit 2,
    .txPut 1 9 (.int 6), .commit 1]

def optimisticSettings : Settings := { name := "transactional", transactional := true }

/-- Only the read of `9` counts, since the reads are repeatable and no more. -/
theorem optimistic_commit_outcome_overtaken :
    (((ofSettings optimisticSettings).batches overtaken).length < 2 ^ 64 - 1 ∧
      1 ∈ ((ofSettings optimisticSettings).before overtaken 8).live ∧
      ¬ ((ofSettings optimisticSettings).buffered overtaken 1 8).isEmpty ∧
      (ofSettings optimisticSettings).Answers overtaken 8 (.commit 1)
        (.error (.writeConflict 9 0 1))) ∧
    (ofSettings optimisticSettings).CommitOutcome overtaken 1 8 (.error (.writeConflict 9 0 1)) :=
  ⟨⟨by decide, by decide, by decide, rfl⟩,
    optimistic_commit_outcome optimisticSettings rfl overtaken (by decide) 1 8 (by decide)
      (by decide) _ rfl⟩

end Cache

end CacheBench
