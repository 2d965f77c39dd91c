import CacheBench.Proofs.AbsentKeyRuns
import CacheBench.Proofs.Conflicts

/-!
# Keys of the lower half are written once

A call of `Work.writeAbsent` checks a key and writes it in separate steps, and other calls may make
theirs in between. The version that the call has read tells at its commit whether another call has
written the key since. So a key of the lower half is written by one call at most, which has found it
absent.
-/

namespace CacheBench

open Std (TreeMap)

theorem Chosen.of_lower {range k k' : Key} {found : Option Value} (h : Chosen range k found k')
    (hk : k' < range / 2) : found = none ∧ k' = k := by
  rcases h.2 with hsame | ⟨-, hhalf, -⟩
  · exact hsame
  · exact (UInt64.not_lt.2 hhalf hk).elim

def Commits (xs : List (Nat × Exchange (Fault CacheError))) (i w : Nat) (a : Key) : Prop :=
  ∃ t, xs[i]? = some (w, ⟨.commit t, .ok ()⟩) ∧
    ⟨.txPut t a (.sample a), .ok ()⟩ ∈ Crew.own w xs

theorem get_succ_of_not_written {settings : Settings}
    {xs : List (Nat × Exchange (Fault CacheError))} {n : Nat} {a : Key}
    (h : ¬ (Cache.ofSettings settings).WritesAt (Crew.requests xs) n a) :
    (cacheAt settings xs (n + 1)).store.get a = (cacheAt settings xs n).store.get a := by
  refine Entries.value?_eq_of_latest_eq ?_
  refine Cache.latest_before_of_not_written _ _ (Nat.le_succ n) fun m hnm hmn => ?_
  obtain rfl : m = n := by omega
  exact h

theorem readVersions_writer {s : Store} {t : TxId} {k k' a : Key} :
    (writer s t k k').readVersions[a]? = if k = a then some (s.entries.version k) else none := by
  change (({ id := t } : Transaction).observe s k).readVersions[a]? = _
  rw [Transaction.observe_readVersions]
  simp

theorem checked_writer {s₀ s : Store} {t : TxId} {k k' : Key} :
    (writer s₀ t k k').checked s k ↔ s.settings.isolation = .serializable ∨ k = k' := by
  simp only [Transaction.checked, writer, Bool.or_eq_true, decide_eq_true_eq, TreeMap.contains_insert,
    TreeMap.contains_emptyc, Bool.or_false, beq_iff_eq, Std.LawfulEqCmp.compare_eq_iff_eq]
  rw [eq_comm (a := k)]

/-- At instant `n` a worker asks for the commit of a transaction that has read the key `k` at
instant `j` and put the key `k'`. -/
structure CommitAt (settings : Settings) (range : Key)
    (xs : List (Nat × Exchange (Fault CacheError))) (n w : Nat) (t : TxId) (k : Key)
    (found : Option Value) (k' : Key) (j : Nat) (y : Except (Fault CacheError) Unit) : Prop where
  chosen : Chosen range k found k'
  after : j < n
  read : ReadAt settings xs w t k found j
  entry : xs[n]? = some (w, ⟨.commit t, y⟩)
  live : (cacheAt settings xs n).live[t]? = some (writer (cacheAt settings xs j).store t k k')
  answer : y = ((writer (cacheAt settings xs j).store t k k').commit
    (cacheAt settings xs n).store).1.mapError .error
  own : Crew.own w xs = [⟨.begin, .ok t⟩, ⟨.txGet t k, .ok found⟩,
    ⟨.txPut t k' (.sample k'), .ok ()⟩, ⟨.commit t, y⟩]

theorem CommitAt.ok {settings : Settings} {range : Key}
    {xs : List (Nat × Exchange (Fault CacheError))} {n w : Nat} {t : TxId} {k : Key}
    {found : Option Value} {k' : Key} {j : Nat}
    (h : CommitAt settings range xs n w t k found k' j (.ok ())) :
    ((writer (cacheAt settings xs j).store t k k').commit (cacheAt settings xs n).store).1 =
      .ok () := by
  have hanswer := h.answer
  cases hresult : ((writer (cacheAt settings xs j).store t k k').commit
      (cacheAt settings xs n).store).1 with
  | ok => rfl
  | error e =>
      rw [hresult] at hanswer
      cases hanswer

namespace AbsentLog

variable {settings : Settings} {range : Key} {xs : List (Nat × Exchange (Fault CacheError))}
  (hxs : AbsentLog settings range xs) (ht : settings.transactional)
  (hc : settings.concurrency = .optimistic)
include hxs ht hc

/-- A call that asks for its commit has read its key and put the key that it writes. -/
theorem commit_stage {n w : Nat} {t : TxId} {y : Except (Fault CacheError) Unit}
    (hx : xs[n]? = some (w, ⟨.commit t, y⟩)) :
    ∃ k found k' j, CommitAt settings range xs n w t k found k' j y := by
  obtain ⟨ys, a, hrun⟩ := hxs.follows (List.mem_of_getElem? hx)
  have hown := Crew.own_eq_take_append hx
  rw [hown, List.append_assoc, List.cons_append] at hrun
  have hstage := (AtStages.run hxs ht hc n).stage w
  generalize Crew.own w (xs.take n) = o at hown hrun hstage
  cases hstage with
  | idle => cases hrun.begins
  | begun hl =>
      obtain ⟨k, -, hreq⟩ := hrun.gets
      cases hreq
  | read hk hj hread hl =>
      obtain ⟨k', -, hreq⟩ := hrun.puts
      cases hreq
  | @put t' k found k' j hk hj hread hl =>
      cases hrun.commits
      have hanswer := hxs.answered hx
      rw [Cache.step_commit hl] at hanswer
      refine ⟨k, found, k', j, hk, hj, hread, hx, hl, by simpa [Crew.seen] using hanswer, ?_⟩
      rw [hown]
      generalize Crew.own w (xs.drop (n + 1)) = rest at hrun
      cases rest with
      | nil => rfl
      | cons z rest => exact hrun.ends.elim
  | ended hk y => exact hrun.ends.elim

/-- Nothing but a commit that succeeds is applied to the cache. -/
theorem batch?_cases {n w : Nat} {x : Exchange (Fault CacheError)} (hx : xs[n]? = some (w, x)) :
    (cacheAt settings xs n).batch? x.request = none ∨ ∃ t k', x = ⟨.commit t, .ok ()⟩ ∧
      ⟨.txPut t k' (.sample k'), .ok ()⟩ ∈ Crew.own w xs ∧
      (cacheAt settings xs n).batch? x.request = some ((∅ : Batch).insert k' (.sample k')) := by
  have hreq : x.request = .begin ∨ ∃ t, x.request.tx? = some t := by
    obtain ⟨ys, a, hrun⟩ := hxs.follows (List.mem_of_getElem? hx)
    rw [Crew.own_eq_take_append hx, List.append_assoc, List.cons_append] at hrun
    rcases (((AtStages.run hxs ht hc n).stage w).next hxs ht hc hx hrun).2 with rfl | ⟨t, htx, -⟩
    · exact .inl rfl
    · exact .inr ⟨t, htx⟩
  obtain ⟨r, y⟩ := x
  cases r with
  | get | query | size | begin | txGet | txPut | rollback | drop => exact .inl rfl
  | put | putAll =>
      rcases hreq with hreq | ⟨t, htx⟩
      · cases hreq
      · cases htx
  | commit t =>
      obtain ⟨k, found, k', j, hcommit⟩ := commit_stage hxs ht hc hx
      rw [Cache.batch?_commit hcommit.live]
      cases hb : (writer (cacheAt settings xs j).store t k k').batch?
          (cacheAt settings xs n).store with
      | none => exact .inl rfl
      | some b =>
          obtain ⟨hok, -, rfl⟩ := Transaction.batch?_eq_some hb
          have hy := hcommit.answer
          rw [hok] at hy
          cases hy
          exact .inr ⟨t, k', rfl, by rw [hcommit.own]; simp, rfl⟩

/-- A commit that succeeds, with what its call has read and put before. -/
theorem commits_spec {n w : Nat} {a : Key} (h : Commits xs n w a) :
    ∃ t k found j, CommitAt settings range xs n w t k found a j (.ok ()) := by
  obtain ⟨t, hx, hput⟩ := h
  obtain ⟨k, found, k', j, hcommit⟩ := commit_stage hxs ht hc hx
  have hkey : k' = a := by
    rw [hcommit.own] at hput
    rcases List.mem_cons.1 hput with heq | hput
    · cases heq
    rcases List.mem_cons.1 hput with heq | hput
    · cases heq
    rcases List.mem_cons.1 hput with heq | hput
    · cases heq
      rfl
    · cases List.mem_singleton.1 hput
  subst k'
  exact ⟨t, k, found, j, hcommit⟩

theorem batch?_of_commits {n w : Nat} {a : Key} (h : Commits xs n w a) :
    ∃ x, xs[n]? = some (w, x) ∧
      (cacheAt settings xs n).batch? x.request = some ((∅ : Batch).insert a (.sample a)) := by
  obtain ⟨t, k, found, j, hcommit⟩ := commits_spec hxs ht hc h
  refine ⟨_, hcommit.entry, ?_⟩
  rw [Cache.batch?_commit hcommit.live]
  exact Transaction.batch?_of_ok hcommit.ok (by simp [writer])

/-- The cache is written by the commits, each a single key. -/
theorem writesAt_iff {n : Nat} {a : Key} :
    (Cache.ofSettings settings).WritesAt (Crew.requests xs) n a ↔ ∃ w, Commits xs n w a := by
  constructor
  · rintro ⟨r, b, hr, hb, hab⟩
    rw [Crew.requests, List.getElem?_map, Option.map_eq_some_iff] at hr
    obtain ⟨⟨w, x⟩, hx, rfl⟩ := hr
    rcases batch?_cases hxs ht hc hx with hnone | ⟨t, k', rfl, hput, hb'⟩
    · cases hnone.symm.trans hb
    · cases hb'.symm.trans hb
      rw [TreeMap.mem_insert] at hab
      rcases hab with heq | hempty
      · cases Std.LawfulEqCmp.compare_eq_iff_eq.1 heq
        exact ⟨w, t, hx, hput⟩
      · exact (TreeMap.not_mem_emptyc hempty).elim
  · rintro ⟨w, h⟩
    obtain ⟨x, hx, hb⟩ := batch?_of_commits hxs ht hc h
    exact ⟨_, _, Crew.getElem?_requests hx, hb, TreeMap.mem_insert_self⟩

theorem get_of_commits {n w : Nat} {a : Key} (h : Commits xs n w a) :
    (cacheAt settings xs (n + 1)).store.get a = some (.sample a) := by
  obtain ⟨x, hx, hb⟩ := batch?_of_commits hxs ht hc h
  rw [cacheAt_succ settings hx, Store.get, Entries.value?, Cache.entries_step, hb,
    Store.applied_some, Store.apply, Entries.latest_putAll, TreeMap.getElem?_insert_self]
  rfl

/-- What the cache has at any time was written by a commit before. -/
theorem commits_of_get {n : Nat} {a : Key} {v : Value}
    (h : (cacheAt settings xs n).store.get a = some v) :
    v = .sample a ∧ ∃ i < n, ∃ w, Commits xs i w a := by
  induction n with
  | zero => simp [Cache.before_zero, Cache.ofSettings, Store.get, Entries.value?] at h
  | succ n ih =>
      by_cases hwrites : (Cache.ofSettings settings).WritesAt (Crew.requests xs) n a
      · obtain ⟨w, hcommits⟩ := (writesAt_iff hxs ht hc).1 hwrites
        rw [get_of_commits hxs ht hc hcommits] at h
        exact ⟨(Option.some.inj h).symm, n, Nat.lt_succ_self n, w, hcommits⟩
      · rw [get_succ_of_not_written hwrites] at h
        obtain ⟨hv, i, hi, hcommits⟩ := ih h
        exact ⟨hv, i, Nat.lt_succ_of_lt hi, hcommits⟩

theorem get_of_commits_before {i n w : Nat} {a : Key} (h : Commits xs i w a) (hin : i < n) :
    (cacheAt settings xs n).store.get a = some (.sample a) := by
  induction n, hin using Nat.le_induction with
  | base => exact get_of_commits hxs ht hc h
  | succ n hin ih =>
      by_cases hwrites : (Cache.ofSettings settings).WritesAt (Crew.requests xs) n a
      · obtain ⟨w', hcommits⟩ := (writesAt_iff hxs ht hc).1 hwrites
        exact get_of_commits hxs ht hc hcommits
      · rwa [get_succ_of_not_written hwrites]

/-! ## One commit for each key of the lower half -/

variable (hw : ((Cache.ofSettings settings).batches (Crew.requests xs)).length < 2 ^ 64 - 1)
include hw

omit hxs ht in
/-- No other call has written the key of a read that counts before the commit that follows it. -/
theorem not_writesAt_of_commit_ok {t : TxId} {k k' : Key} {j n : Nat} (hj : j < n)
    (hok : ((writer (cacheAt settings xs j).store t k k').commit
      (cacheAt settings xs n).store).1 = .ok ())
    (hcounts : settings.isolation = .serializable ∨ k = k') (m : Nat) (hjm : j ≤ m) (hmn : m < n) :
    ¬ (Cache.ofSettings settings).WritesAt (Crew.requests xs) m k := by
  have hc' : (cacheAt settings xs n).store.settings.concurrency = .optimistic := by
    rwa [Cache.settings_before]
  have hnone := (Transaction.commit_ok_iff hc' (by simp [writer])).1 hok
  have hversion := Transaction.conflict?_eq_none_iff.1 hnone k _
    (by rw [readVersions_writer, if_pos rfl]) (checked_writer.2 (by rwa [Cache.settings_before]))
  exact (Cache.version_before_eq_iff hw (Nat.le_of_lt hj) k).1 hversion m hjm hmn

omit hxs ht in
/-- A commit that fails names the key that was read. Another call has written it since. -/
theorem conflict_of_commit_error {t : TxId} {k k' : Key} {j n : Nat} (hj : j < n) {e : CacheError}
    (herror : ((writer (cacheAt settings xs j).store t k k').commit
      (cacheAt settings xs n).store).1 = .error e) :
    (∃ read current, e = .writeConflict k read current) ∧
      ∃ m, j ≤ m ∧ m < n ∧ (Cache.ofSettings settings).WritesAt (Crew.requests xs) m k := by
  have hc' : (cacheAt settings xs n).store.settings.concurrency = .optimistic := by
    rwa [Cache.settings_before]
  obtain ⟨a, read, hread, -, hne, rfl⟩ := Transaction.conflict?_eq_some
    ((Transaction.commit_error_iff hc' (by simp [writer])).1 herror)
  rw [readVersions_writer] at hread
  split at hread
  · subst a
    cases hread
    rw [ne_eq, Cache.version_before_eq_iff hw (Nat.le_of_lt hj) k] at hne
    push Not at hne
    obtain ⟨m, hjm, hmn, hwrites⟩ := hne
    exact ⟨⟨_, _, rfl⟩, m, hjm, hmn, hwrites⟩
  · cases hread

theorem commits_once {i i' w w' : Nat} {a : Key} (ha : a < range / 2) (h : Commits xs i w a)
    (h' : Commits xs i' w' a) : i = i' ∧ w = w' := by
  have hle : ∀ {i i' w w'}, Commits xs i w a → Commits xs i' w' a → i' ≤ i := by
    intro i i' w w' h h'
    by_contra hlt
    obtain ⟨t, k, found, j, hcommit⟩ := commits_spec hxs ht hc h'
    obtain ⟨rfl, rfl⟩ := hcommit.chosen.of_lower ha
    by_cases hij : i < j
    · cases hcommit.read.value.symm.trans (get_of_commits_before hxs ht hc h hij)
    · exact not_writesAt_of_commit_ok hc hw hcommit.after hcommit.ok (.inr rfl) i (by omega)
        (by omega)
        ((writesAt_iff hxs ht hc).2 ⟨w, h⟩)
  obtain rfl : i = i' := Nat.le_antisymm (hle h' h) (hle h h')
  obtain ⟨t, hx, -⟩ := h
  obtain ⟨t', hx', -⟩ := h'
  cases hx.symm.trans hx'
  exact ⟨rfl, rfl⟩

/-- A call that is over has committed its key or failed with a conflict. -/
theorem ended_cases {w : Nat} {x : Except (Fault WorkError) Key}
    (hrun : AbsentRun range (Crew.own w xs) x) :
    (∃ n k, Commits xs n w k ∧ x = .ok k) ∨
      ∃ t k found k' j n read current,
        CommitAt settings range xs n w t k found k' j
          (.error (.error (.writeConflict k read current))) ∧
        (∃ m w', j < m ∧ m < n ∧ Commits xs m w' k) ∧
        x = .error (.error (.cache (.writeConflict k read current))) ∧
        ∀ i a, ¬ Commits xs i w a := by
  obtain ⟨t, y, hmem⟩ : ∃ t y, ⟨.commit t, y⟩ ∈ Crew.own w xs := by
    have hstage := (AtStages.run hxs ht hc xs.length).stage w
    rw [List.take_length] at hstage
    generalize Crew.own w xs = o at hrun hstage
    cases hrun with
    | unbegun | unread | unwritten => cases hstage
    | written hk y => exact ⟨_, y, by simp⟩
  obtain ⟨n, hx⟩ := List.mem_iff_getElem?.1 (Crew.mem_own.1 hmem)
  obtain ⟨k, found, k', j, hcommit⟩ := commit_stage hxs ht hc hx
  have hend : x = (y.map fun _ => k').mapError (Fault.map .cache) := by
    rw [hcommit.own] at hrun
    cases hrun with
    | written hk' y => rfl
  have hy := hcommit.answer
  cases hresult : ((writer (cacheAt settings xs j).store t k k').commit
      (cacheAt settings xs n).store).1 with
  | ok =>
      rw [hresult] at hy
      subst hy
      exact .inl ⟨n, k', ⟨t, hx, by rw [hcommit.own]; simp⟩, hend⟩
  | error e =>
      obtain ⟨⟨read, current, rfl⟩, m, hjm, hmn, hwrites⟩ :=
        conflict_of_commit_error hc hw hcommit.after hresult
      rw [hresult] at hy
      subst hy
      obtain ⟨w', hm⟩ := (writesAt_iff hxs ht hc).1 hwrites
      have hne : j ≠ m := by
        rintro rfl
        obtain ⟨t', hm, -⟩ := hm
        cases hm.symm.trans hcommit.read.entry
      refine .inr ⟨t, k, found, k', j, n, read, current, hcommit,
        ⟨m, w', by omega, hmn, hm⟩, hend, fun i a hi => ?_⟩
      obtain ⟨_, _, _, _, hother⟩ := commits_spec hxs ht hc hi
      cases hcommit.own.symm.trans hother.own

end AbsentLog

/-- What calls of `Work.writeAbsent` do to a cache that is empty at first. The cache is written by
commits of calls, each of one key. A key of the lower half is committed once, by a call that has
found it absent. A call that has found its key there commits one of the upper half. A call returns
the key that it has committed, unless it fails with a conflict: then another call has committed its
key between its read and its commit, and the call has changed nothing. -/
structure AbsentWrites {δ : Type} (settings : Settings) (range : Key)
    (xs : List (Nat × Exchange (Fault CacheError))) (c : Crew (Cache × δ) Key) : Prop where
  writes_iff : ∀ i a, (Cache.ofSettings settings).WritesAt (Crew.requests xs) i a ↔
    ∃ w, Commits xs i w a
  value : ∀ i w a, Commits xs i w a →
    (cacheAt settings xs (i + 1)).store.get a = some (.sample a)
  once : ∀ i i' w w' a, a < range / 2 → Commits xs i w a → Commits xs i' w' a → i = i' ∧ w = w'
  absent : ∀ i w a, a < range / 2 → Commits xs i w a →
    ∃ j < i, ∃ t, xs[j]? = some (w, ⟨.txGet t a, .ok none⟩)
  present : ∀ i w a t k v, Commits xs i w a → (w, ⟨.txGet t k, .ok (some v)⟩) ∈ xs →
    k < range / 2 ∧ range / 2 ≤ a ∧ a < range
  ends : ∀ w x, c.Ended w x → (∃ k, x = .ok k) ∨
    ∃ a read current, x = .error (.error (.cache (.writeConflict a read current)))
  ok : ∀ w k, c.Ended w (.ok k) → (∃ i, Commits xs i w k) ∧ ∀ i a, Commits xs i w a → a = k
  conflict : ∀ w a read current,
    c.Ended w (.error (.error (.cache (.writeConflict a read current)))) → a < range / 2 ∧
      ∃ j m n t w', j < m ∧ m < n ∧ xs[j]? = some (w, ⟨.txGet t a, .ok none⟩) ∧
        w' ≠ w ∧ Commits xs m w' a ∧
        xs[n]? = some (w, ⟨.commit t, .error (.error (.writeConflict a read current))⟩)
  unchanged : ∀ w e, c.Ended w (.error e) → ∀ i x, xs[i]? = some (w, x) →
    (cacheAt settings xs (i + 1)).store.entries = (cacheAt settings xs i).store.entries

namespace AbsentLog

variable {settings : Settings} {range : Key} {xs : List (Nat × Exchange (Fault CacheError))}

theorem absentWrites {δ : Type} {c : Crew (Cache × δ) Key} (hxs : AbsentLog settings range xs)
    (ht : settings.transactional) (hc : settings.concurrency = .optimistic)
    (hw : ((Cache.ofSettings settings).batches (Crew.requests xs)).length < 2 ^ 64 - 1)
    (hends : ∀ w x, c.Ended w x → AbsentRun range (Crew.own w xs) x) :
    AbsentWrites settings range xs c := by
  refine ⟨fun i a => writesAt_iff hxs ht hc, fun i w a => get_of_commits hxs ht hc,
    fun i i' w w' a => commits_once hxs ht hc hw, ?absent, ?present, ?ends, ?ok, ?conflict,
    ?unchanged⟩
  case absent =>
    intro i w a ha h
    obtain ⟨t, k, found, j, hcommit⟩ := commits_spec hxs ht hc h
    obtain ⟨rfl, rfl⟩ := hcommit.chosen.of_lower ha
    exact ⟨j, hcommit.after, t, hcommit.read.entry⟩
  case present =>
    intro i w a t k v h hget
    obtain ⟨t', k', found, j, hcommit⟩ := commits_spec hxs ht hc h
    have hmem := Crew.mem_own.2 hget
    rw [hcommit.own] at hmem
    have hread : k = k' ∧ found = some v := by
      rcases List.mem_cons.1 hmem with heq | hmem
      · cases heq
      rcases List.mem_cons.1 hmem with heq | hmem
      · cases heq
        exact ⟨rfl, rfl⟩
      rcases List.mem_cons.1 hmem with heq | hmem
      · cases heq
      · cases List.mem_singleton.1 hmem
    obtain ⟨rfl, rfl⟩ := hread
    obtain ⟨hk, ⟨hnone, -⟩ | ⟨-, hupper⟩⟩ := hcommit.chosen
    · cases hnone
    · exact ⟨hk, hupper⟩
  case ends =>
    intro w x hended
    rcases ended_cases hxs ht hc hw (hends w x hended) with ⟨n, k, -, rfl⟩ |
      ⟨_, k, _, _, _, _, read, current, -, -, rfl, -⟩
    · exact .inl ⟨k, rfl⟩
    · exact .inr ⟨k, read, current, rfl⟩
  case ok =>
    intro w k hended
    rcases ended_cases hxs ht hc hw (hends w _ hended) with ⟨n, k, hn, heq⟩ |
      ⟨_, _, _, _, _, _, _, _, -, -, heq, -⟩
    · cases heq
      refine ⟨⟨n, hn⟩, fun i a hi => ?_⟩
      obtain ⟨_, _, _, _, hcommit⟩ := commits_spec hxs ht hc hn
      obtain ⟨_, _, _, _, hcommit'⟩ := commits_spec hxs ht hc hi
      cases hcommit.own.symm.trans hcommit'.own
      rfl
    · cases heq
  case conflict =>
    intro w a read current hended
    rcases ended_cases hxs ht hc hw (hends w _ hended) with ⟨_, _, -, heq⟩ |
      ⟨t, k, found, k', j, n, _, _, hcommit, ⟨m, w', hjm, hmn, hm⟩, heq, hnone⟩
    · cases heq
    cases heq
    have hk := hcommit.chosen.1
    -- a key that was there already would have been written twice
    have hfound : found = none := by
      cases hfound : found with
      | none => rfl
      | some v =>
          obtain ⟨-, i, hij, w'', hi⟩ :=
            commits_of_get hxs ht hc (hcommit.read.value.trans hfound)
          have := (commits_once hxs ht hc hw hk hi hm).1
          omega
    subst hfound
    refine ⟨hk, j, m, n, t, w', hjm, hmn, hcommit.read.entry, ?_, hm, hcommit.entry⟩
    rintro rfl
    exact hnone m a hm
  case unchanged =>
    intro w e hended i x hx
    rcases ended_cases hxs ht hc hw (hends w _ hended) with ⟨_, _, -, heq⟩ |
      ⟨_, _, _, _, _, _, _, _, -, -, -, hnone⟩
    · cases heq
    rcases batch?_cases hxs ht hc hx with hbatch | ⟨t, k', rfl, hput, -⟩
    · rw [cacheAt_succ settings hx, Cache.entries_step, hbatch]
      rfl
    · exact (hnone i k' ⟨t, hx, hput⟩).elim

end AbsentLog

def absentCrew {δ : Type} (settings : Settings) (range : Key) (workers : Nat) (g : δ) :
    Crew (Cache × δ) Key :=
  Crew.ofTasks "write-absent-" workers (fun _ => Work.writeAbsent range) (.ofSettings settings, g)

/-- Calls of `Work.writeAbsent` in any interleaving and with any draws write each key of the lower
half once. The batches are fewer than the versions, which would begin anew after so many. -/
theorem absentWrites_run (settings : Settings) (ht : settings.transactional)
    (hc : settings.concurrency = .optimistic) {range : Key} (hrange : 2 ≤ range.toNat) {δ : Type}
    (source : Crew.Source δ) (hsource : ∀ (d : Draw) (g : δ), d.Admits (source d g).1)
    (workers : Nat) (g : δ) (schedule : List Nat)
    (hw : ((Cache.ofSettings settings).batches (Crew.requests ((absentCrew settings range workers g).log
      (Crew.withSource Cache.service source) schedule))).length < 2 ^ 64 - 1) :
    AbsentWrites settings range
      ((absentCrew settings range workers g).log (Crew.withSource Cache.service source) schedule)
      ((absentCrew settings range workers g).run (Crew.withSource Cache.service source) schedule) := by
  have hadmits : (Crew.withSource Cache.service source).Admits := fun d s => hsource d s.2
  have hfollows := Crew.follows_run hadmits "write-absent-" workers
    (fun _ => Work.writeAbsent range) (Cache.ofSettings settings, g) schedule
  have hlog : AbsentLog settings range ((absentCrew settings range workers g).log
      (Crew.withSource Cache.service source) schedule) := by
    refine ⟨fun hx => (Crew.getElem?_log hx).2, fun hx => ?_⟩
    obtain ⟨ys, a, hrun, -⟩ := hfollows.exists_runs hx
    exact ⟨ys, a, absentRun_of_runs hrange hrun⟩
  exact hlog.absentWrites ht hc hw fun w x hended =>
    absentRun_of_runs hrange (hfollows.ended w x hended)

def lowest : Crew.Source Unit
  | .between low _, _ => (low, ())
  | .unit, _ => (.zero, ())
  | .coin, _ => (false, ())

/-- Both workers read the key `0` before either writes it. -/
def overlapping : List Nat := [0, 0, 0, 1, 1, 1, 0, 0, 0, 1, 1, 1]

theorem absentWrites_run_overlapping :
    (((absentCrew Cache.optimisticSettings 2 2 ()).run (Crew.withSource Cache.service lowest)
        overlapping).Ended 0 (.ok 0) ∧
      ((absentCrew Cache.optimisticSettings 2 2 ()).run (Crew.withSource Cache.service lowest)
        overlapping).Ended 1 (.error (.error (.cache (.writeConflict 0 0 1))))) ∧
    AbsentWrites Cache.optimisticSettings 2
      ((absentCrew Cache.optimisticSettings 2 2 ()).log (Crew.withSource Cache.service lowest) overlapping)
      ((absentCrew Cache.optimisticSettings 2 2 ()).run (Crew.withSource Cache.service lowest)
        overlapping) := by
  refine ⟨⟨rfl, rfl⟩, absentWrites_run Cache.optimisticSettings rfl rfl (by decide) lowest ?_ 2 () _
    (by decide)⟩
  intro d g
  cases d with
  | unit | coin => trivial
  | between low high => exact fun h => ⟨UInt64.le_refl low, h⟩

end CacheBench
