import CacheBench.Proofs.AppliedBatch

/-!
# What one call of a transaction does

Each operation of a transaction has one description here, and later modules use it in place of the
definition. A read either remembers or observes; a put changes the store in its lock table alone;
a commit applies the batch `batch?` or nothing, and gives up the locks either way.
-/

namespace CacheBench

open Std (TreeMap)

namespace Store

theorem lock?_eq_some_iff {s s' : Store} {k : Key} {t : TxId} :
    s.lock? k t = some s' ↔
      s.locks[k]? = none ∧ s' = { s with locks := s.locks.insert k t } ∨
        s.locks[k]? = some t ∧ s' = s := by
  unfold lock?
  cases hk : s.locks[k]? with
  | none => simp [eq_comm]
  | some owner =>
      by_cases ho : owner = t
      · simp [ho, eq_comm]
      · simp [ho]

theorem lock?_eq_none_iff {s : Store} {k : Key} {t : TxId} :
    s.lock? k t = none ↔ ∃ owner, owner ≠ t ∧ s.locks[k]? = some owner := by
  unfold lock?
  cases s.locks[k]? with
  | none => simp
  | some owner =>
      by_cases ho : owner = t
      · simp [ho]
      · simp [ho]

def removeOwn (t : TxId) (m : TreeMap Key TxId) (k : Key) : TreeMap Key TxId :=
  if m[k]? = some t then m.erase k else m

theorem getElem?_removeOwn (t : TxId) (m : TreeMap Key TxId) (k a : Key) :
    (removeOwn t m k)[a]? = if a = k ∧ m[a]? = some t then none else m[a]? := by
  unfold removeOwn
  by_cases ha : a = k
  · subst a
    by_cases hk : m[k]? = some t
    · simp [hk]
    · simp [hk]
  · have hka : ¬ k = a := fun h => ha h.symm
    split <;> simp [TreeMap.getElem?_erase, ha, hka]

/-- Unlocking frees the given keys that the transaction owns and no other. -/
theorem locks_unlock (s : Store) (t : TxId) (keys : List Key) (a : Key) :
    (s.unlock t keys).locks[a]? =
      if a ∈ keys ∧ s.locks[a]? = some t then none else s.locks[a]? := by
  have hfold : ∀ (m : TreeMap Key TxId),
      (keys.foldl (removeOwn t) m)[a]? = if a ∈ keys ∧ m[a]? = some t then none else m[a]? := by
    induction keys with
    | nil => simp
    | cons k keys ih =>
        intro m
        rw [List.foldl_cons, ih, getElem?_removeOwn]
        by_cases hk : a = k ∧ m[a]? = some t
        · simp [hk.1, hk.1 ▸ hk.2]
        · have hmem : a ∈ k :: keys ∧ m[a]? = some t ↔ a ∈ keys ∧ m[a]? = some t := by
            rw [List.mem_cons]
            tauto
          rw [if_neg hk]
          simp only [hmem]
  exact hfold s.locks

end Store

namespace Transaction

theorem get_of_remembered {s : Store} {t : Transaction} {k : Key} {v : Option Value}
    (h : t.remembered? s k = some v) : t.get s k = (v, t) := by simp [get, h]

theorem get_of_not_remembered {s : Store} {t : Transaction} {k : Key}
    (h : t.remembered? s k = none) : t.get s k = (s.get k, t.observe s k) := by simp [get, h]

theorem remembered?_of_write {s : Store} {t : Transaction} {k : Key} {v : Value}
    (h : t.writes[k]? = some v) : t.remembered? s k = some (some v) := by simp [remembered?, h]

theorem remembered?_of_no_write {s : Store} {t : Transaction} {k : Key}
    (h : t.writes[k]? = none) :
    t.remembered? s k = if repeatable s then t.snapshot[k]? else none := by simp [remembered?, h]

theorem remembered?_eq_none_iff {s : Store} {t : Transaction} {k : Key}
    (hs : s.settings.isolation ≠ .readCommitted) :
    t.remembered? s k = none ↔ t.writes[k]? = none ∧ t.snapshot[k]? = none := by
  cases hw : t.writes[k]? with
  | some v => simp [remembered?, hw]
  | none => simp [remembered?, hw, repeatable, hs]

theorem observe_snapshot {s : Store} {t : Transaction} {k : Key}
    (hs : s.settings.isolation ≠ .readCommitted) (a : Key) :
    (t.observe s k).snapshot[a]? = if k = a then some (s.get k) else t.snapshot[a]? := by
  simp [observe, repeatable, hs, TreeMap.getElem?_insert]

theorem observe_readVersions (s : Store) (t : Transaction) (k a : Key) :
    (t.observe s k).readVersions[a]? =
      if k = a ∧ t.readVersions[a]? = none then some (s.entries.version k)
      else t.readVersions[a]? := by
  simp only [observe, TreeMap.getElem?_insertIfNew, Std.LawfulEqCmp.compare_eq_iff_eq]
  by_cases ha : k = a
  · subst a
    simp
  · simp [ha]

theorem observe_snapshot_eq_some {s : Store} {t : Transaction} {k a : Key} {v : Option Value}
    (h : (t.observe s k).snapshot[a]? = some v) : a = k ∨ t.snapshot[a]? = some v := by
  by_cases hs : repeatable s
  · simp only [observe, hs, if_true, TreeMap.getElem?_insert] at h
    split at h
    · rename_i hka
      exact .inl (Std.LawfulEqCmp.compare_eq_iff_eq.1 hka).symm
    · exact .inr h
  · simp only [observe, hs] at h
    exact .inr h

def SnapshotOf (t : Transaction) (base : Key → Option Value) : Prop :=
  ∀ (k : Key) (v : Option Value), t.snapshot[k]? = some v → base k = v

/-- A get that is not answered from the writes is answered from the snapshot it leaves. -/
theorem get_fst_eq {s : Store} {t : Transaction} {k : Key} {base : Key → Option Value}
    (hs : s.settings.isolation ≠ .readCommitted) (hbase : (t.get s k).2.SnapshotOf base) :
    (t.get s k).1 = t.writes[k]?.or (base k) := by
  cases hw : t.writes[k]? with
  | some v =>
      rw [get_of_remembered (remembered?_of_write hw)]
      rfl
  | none =>
      rw [Option.none_or]
      cases hsn : t.snapshot[k]? with
      | some v =>
          have hm : t.remembered? s k = some v := by
            simp [remembered?_of_no_write hw, repeatable, hs, hsn]
          rw [get_of_remembered hm] at hbase ⊢
          exact (hbase k v hsn).symm
      | none =>
          have hm := (remembered?_eq_none_iff hs).2 ⟨hw, hsn⟩
          rw [get_of_not_remembered hm] at hbase ⊢
          exact (hbase k (s.get k) (by rw [observe_snapshot hs, if_pos rfl])).symm

@[simp] theorem get_id (s : Store) (t : Transaction) (k : Key) : (t.get s k).2.id = t.id := by
  unfold get; split <;> rfl

@[simp] theorem get_writes (s : Store) (t : Transaction) (k : Key) :
    (t.get s k).2.writes = t.writes := by unfold get; split <;> rfl

@[simp] theorem get_held (s : Store) (t : Transaction) (k : Key) :
    (t.get s k).2.held = t.held := by unfold get; split <;> rfl

/-- A put buffers its value. It locks its key first where writers have to and have not yet. -/
theorem put_eq (s : Store) (t : Transaction) (k : Key) (v : Value) :
    t.put s k v =
      if s.settings.concurrency = .pessimistic ∧ k ∉ t.held then
        match s.lock? k t.id with
        | some s' => .ok (s', { t with held := k :: t.held, writes := t.writes.insert k v })
        | none => .error (.lockTimeout k s.settings.lockTimeout)
      else .ok (s, { t with writes := t.writes.insert k v }) := by
  by_cases hk : s.settings.concurrency = .pessimistic ∧ k ∉ t.held
  · simp only [put, acquire, if_pos hk]
    cases s.lock? k t.id <;> rfl
  · simp only [put, acquire, if_neg hk]
    rfl

theorem put_eq_ok_iff {s s' : Store} {t t' : Transaction} {k : Key} {v : Value} :
    t.put s k v = .ok (s', t') ↔
      (s.settings.concurrency = .pessimistic ∧ k ∉ t.held ∧ s.lock? k t.id = some s' ∧
          t' = { t with held := k :: t.held, writes := t.writes.insert k v }) ∨
        (¬ (s.settings.concurrency = .pessimistic ∧ k ∉ t.held) ∧ s' = s ∧
          t' = { t with writes := t.writes.insert k v }) := by
  rw [put_eq]
  by_cases hk : s.settings.concurrency = .pessimistic ∧ k ∉ t.held
  · rw [if_pos hk]
    cases s.lock? k t.id with
    | none => simp [hk]
    | some s₁ => simp [hk, eq_comm]
  · simp only [hk, if_false, not_false_eq_true, true_and, Except.ok.injEq, Prod.mk.injEq]
    grind

theorem put_eq_error_iff {s : Store} {t : Transaction} {k : Key} {v : Value} {e : CacheError} :
    t.put s k v = .error e ↔
      s.settings.concurrency = .pessimistic ∧ k ∉ t.held ∧ s.lock? k t.id = none ∧
        e = .lockTimeout k s.settings.lockTimeout := by
  rw [put_eq]
  by_cases hk : s.settings.concurrency = .pessimistic ∧ k ∉ t.held
  · rw [if_pos hk]
    cases s.lock? k t.id with
    | none => simp [hk, eq_comm]
    | some s₁ => simp
  · rw [if_neg hk]
    constructor
    · intro h
      cases h
    · rintro ⟨hc, hheld, -⟩
      exact absurd ⟨hc, hheld⟩ hk

/-- A pessimistic put holds its key afterwards, and what was held before. -/
theorem mem_held_put {s s' : Store} {t t' : Transaction} {k a : Key} {v : Value}
    (hc : s.settings.concurrency = .pessimistic) (h : t.put s k v = .ok (s', t')) :
    a ∈ t'.held ↔ a = k ∨ a ∈ t.held := by
  rcases put_eq_ok_iff.1 h with ⟨-, -, -, rfl⟩ | ⟨hheld, -, rfl⟩
  · exact List.mem_cons
  · have hk : k ∈ t.held := by
      by_contra hk
      exact hheld ⟨hc, hk⟩
    constructor
    · exact .inr
    · rintro (rfl | ha)
      · exact hk
      · exact ha

def batch? (s : Store) (t : Transaction) : Option Batch :=
  match t.commit s with
  | (.ok (), _) => if t.writes.isEmpty then none else some t.writes
  | (.error _, _) => none

theorem conflict?_eq_none_iff {s : Store} {t : Transaction} :
    t.conflict? s = none ↔
      ∀ k r, t.readVersions[k]? = some r → t.checked s k → s.entries.version k = r := by
  simp only [conflict?, Option.map_eq_none_iff, List.find?_eq_none, Prod.forall,
    TreeMap.mem_toList_iff_getElem?_eq_some, Bool.and_eq_true, bne_iff_ne, not_and, not_not]

/-- A conflict names a read that can make the commit fail and whose key has another version now. -/
theorem conflict?_eq_some {s : Store} {t : Transaction} {e : CacheError}
    (h : t.conflict? s = some e) :
    ∃ k r, t.readVersions[k]? = some r ∧ t.checked s k ∧ s.entries.version k ≠ r ∧
      e = .writeConflict k r (s.entries.version k) := by
  obtain ⟨⟨k, r⟩, hfind, rfl⟩ := Option.map_eq_some_iff.1 h
  have hmem := List.mem_of_find?_eq_some hfind
  have hcond := List.find?_some hfind
  simp only [Bool.and_eq_true, bne_iff_ne] at hcond
  exact ⟨k, r, TreeMap.mem_toList_iff_getElem?_eq_some.1 hmem, hcond.1, hcond.2, rfl⟩

/-- A commit applies its batch or nothing, and gives up the locks. -/
theorem commit_store (s : Store) (t : Transaction) :
    (t.commit s).2 = t.close (s.applied (t.batch? s)) := by
  unfold batch? commit
  by_cases hw : t.writes.isEmpty
  · simp [hw]
  · simp only [hw]
    cases (if s.settings.concurrency = .optimistic then t.conflict? s else none) <;> simp

theorem batch?_eq_some {s : Store} {t : Transaction} {b : Batch} (h : t.batch? s = some b) :
    (t.commit s).1 = .ok () ∧ ¬ t.writes.isEmpty ∧ b = t.writes := by
  unfold batch? at h
  split at h
  · rename_i heq
    split at h
    · cases h
    · rename_i hw
      exact ⟨by rw [heq], hw, (Option.some.inj h).symm⟩
  · cases h

theorem batch?_of_ok {s : Store} {t : Transaction} (h : (t.commit s).1 = .ok ())
    (hw : ¬ t.writes.isEmpty) : t.batch? s = some t.writes := by
  have he : t.commit s = (.ok (), (t.commit s).2) := Prod.ext h rfl
  unfold batch?
  rw [he]
  simp [hw]

theorem batch?_of_error {s : Store} {t : Transaction} {e : CacheError}
    (h : (t.commit s).1 = .error e) : t.batch? s = none := by
  cases hb : t.batch? s with
  | none => rfl
  | some b =>
      rw [(batch?_eq_some hb).1] at h
      cases h

theorem batch?_of_isEmpty {s : Store} {t : Transaction} (hw : t.writes.isEmpty) :
    t.batch? s = none := by simp [batch?, commit, hw]

theorem batch?_eq_some_iff {s : Store} {t : Transaction} {b : Batch} :
    t.batch? s = some b ↔ (t.commit s).1 = .ok () ∧ ¬ b.isEmpty ∧ b = t.writes := by
  constructor
  · intro h
    obtain ⟨hok, hw, rfl⟩ := batch?_eq_some h
    exact ⟨hok, hw, rfl⟩
  · rintro ⟨hok, hw, rfl⟩
    exact batch?_of_ok hok hw

/-- An optimistic writer commits exactly when no read that counts has changed. -/
theorem commit_ok_iff {s : Store} {t : Transaction} (hc : s.settings.concurrency = .optimistic)
    (hw : ¬ t.writes.isEmpty) : (t.commit s).1 = .ok () ↔ t.conflict? s = none := by
  unfold commit
  rw [if_neg hw, if_pos hc]
  cases t.conflict? s <;> simp

theorem commit_error_iff {s : Store} {t : Transaction} {e : CacheError}
    (hc : s.settings.concurrency = .optimistic) (hw : ¬ t.writes.isEmpty) :
    (t.commit s).1 = .error e ↔ t.conflict? s = some e := by
  unfold commit
  rw [if_neg hw, if_pos hc]
  cases t.conflict? s <;> simp

theorem close_of_held_nil {s : Store} {t : Transaction} (h : t.held = []) : t.close s = s := by
  rw [close, h]
  rfl

theorem put_id {s s' : Store} {t t' : Transaction} {k : Key} {v : Value}
    (h : t.put s k v = .ok (s', t')) : t'.id = t.id := by
  rcases put_eq_ok_iff.1 h with ⟨-, -, -, rfl⟩ | ⟨-, -, rfl⟩ <;> rfl

theorem put_writes {s s' : Store} {t t' : Transaction} {k : Key} {v : Value}
    (h : t.put s k v = .ok (s', t')) : t'.writes = t.writes.insert k v := by
  rcases put_eq_ok_iff.1 h with ⟨-, -, -, rfl⟩ | ⟨-, -, rfl⟩ <;> rfl

theorem put_snapshot {s s' : Store} {t t' : Transaction} {k : Key} {v : Value}
    (h : t.put s k v = .ok (s', t')) : t'.snapshot = t.snapshot := by
  rcases put_eq_ok_iff.1 h with ⟨-, -, -, rfl⟩ | ⟨-, -, rfl⟩ <;> rfl

theorem put_readVersions {s s' : Store} {t t' : Transaction} {k : Key} {v : Value}
    (h : t.put s k v = .ok (s', t')) : t'.readVersions = t.readVersions := by
  rcases put_eq_ok_iff.1 h with ⟨-, -, -, rfl⟩ | ⟨-, -, rfl⟩ <;> rfl

/-- What a request of its own leaves of an open transaction. A put that gets no lock leaves it as
it was. -/
def step? (s : Store) (t : Transaction) : Request → Option Transaction
  | .txGet _ k => some (t.get s k).2
  | .txPut _ k v =>
    match t.put s k v with
    | .ok (_, t') => some t'
    | .error _ => some t
  | .commit _ | .rollback _ | .drop _ => none
  | _ => some t

theorem step?_eq_some {s : Store} {t t' : Transaction} {r : Request}
    (h : t.step? s r = some t') :
    t' = t ∨ (∃ x k, r = .txGet x k ∧ t' = (t.get s k).2) ∨
      ∃ x k v s', r = .txPut x k v ∧ t.put s k v = .ok (s', t') := by
  cases r with
  | txGet x k => exact .inr (.inl ⟨x, k, rfl, (Option.some.inj h).symm⟩)
  | txPut x k v =>
      cases hp : t.put s k v with
      | error e =>
          simp only [step?, hp] at h
          exact .inl (Option.some.inj h).symm
      | ok p =>
          simp only [step?, hp] at h
          obtain rfl := Option.some.inj h
          exact .inr (.inr ⟨x, k, v, p.1, rfl, hp⟩)
  | commit _ | rollback _ | drop _ => cases h
  | get _ | put _ _ | putAll _ | query _ | size | begin => exact .inl (Option.some.inj h).symm

theorem step?_id {s : Store} {t t' : Transaction} {r : Request} (h : t.step? s r = some t') :
    t'.id = t.id := by
  rcases step?_eq_some h with rfl | ⟨_, k, _, rfl⟩ | ⟨_, k, v, s', _, hp⟩
  · rfl
  · exact get_id s t k
  · exact put_id hp

theorem step?_held {s : Store} {t t' : Transaction} {r : Request} {k : Key}
    (h : t.step? s r = some t') (hk : k ∈ t.held) : k ∈ t'.held := by
  rcases step?_eq_some h with rfl | ⟨_, a, _, rfl⟩ | ⟨_, a, v, s', _, hp⟩
  · exact hk
  · rwa [get_held]
  · rcases put_eq_ok_iff.1 hp with ⟨-, -, -, rfl⟩ | ⟨-, -, rfl⟩
    · exact List.mem_cons_of_mem a hk
    · exact hk

theorem step?_writes_none {s : Store} {t t' : Transaction} {r : Request} {k : Key}
    (h : t.step? s r = some t') (hk : t'.writes[k]? = none) : t.writes[k]? = none := by
  rcases step?_eq_some h with rfl | ⟨_, a, _, rfl⟩ | ⟨_, a, v, s', _, hp⟩
  · exact hk
  · rwa [get_writes] at hk
  · rw [put_writes hp, TreeMap.getElem?_insert] at hk
    split at hk
    · cases hk
    · exact hk

theorem step?_snapshot_none {s : Store} {t t' : Transaction} {r : Request} {k : Key}
    (h : t.step? s r = some t') (hk : t'.snapshot[k]? = none) : t.snapshot[k]? = none := by
  rcases step?_eq_some h with rfl | ⟨_, a, _, rfl⟩ | ⟨_, a, v, s', _, hp⟩
  · exact hk
  · cases hm : t.remembered? s a with
    | some v => rwa [get_of_remembered hm] at hk
    | none =>
        rw [get_of_not_remembered hm] at hk
        by_cases hs : repeatable s
        · simp only [observe, hs, if_true, TreeMap.getElem?_insert] at hk
          split at hk
          · cases hk
          · exact hk
        · simpa [observe, hs] using hk
  · rwa [put_snapshot hp] at hk

end Transaction

end CacheBench
