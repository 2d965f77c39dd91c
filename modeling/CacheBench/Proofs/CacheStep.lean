import CacheBench.Proofs.TransactionStep
import Mathlib.Data.Nat.Find

/-!
# What one request does to a cache

`Request.tx?` is the transaction that a request belongs to, and `Cache.batch?` the batch that it
applies, if it applies one. The entries and the version counter of a store change by that batch and
by nothing else. An open transaction changes by its own requests alone, in the way of
`Transaction.step?`, and the number of a finished one is not given out again.
-/

namespace CacheBench

open Std (TreeMap)

def Request.tx? : Request → Option TxId
  | .txGet t _ | .txPut t _ _ | .commit t | .rollback t | .drop t => some t
  | _ => none

def Request.Ends (t : TxId) (r : Request) : Prop := r = .commit t ∨ r = .rollback t ∨ r = .drop t

theorem Request.Ends.tx? {t : TxId} {r : Request} (h : r.Ends t) : r.tx? = some t := by
  rcases h with rfl | rfl | rfl <;> rfl

theorem Transaction.step?_eq_none_iff {s : Store} {tx : Transaction} {t : TxId} {r : Request}
    (hr : r.tx? = some t) : tx.step? s r = none ↔ r.Ends t := by
  cases r with
  | get _ | put _ _ | putAll _ | query _ | size | begin => cases hr
  | txGet _ k => simp [step?, Request.Ends]
  | txPut _ k v =>
      cases hp : tx.put s k v <;> simp [step?, hp, Request.Ends]
  | commit _ | rollback _ | drop _ =>
      cases hr
      simp [step?, Request.Ends]

namespace Cache

variable {c : Cache} {r : Request} {t : TxId} {tx : Transaction}

/-- The batch that a request applies to the entries. -/
def batch? (c : Cache) : Request → Option Batch
  | .put k v => some (Batch.ofList [(k, v)])
  | .putAll b => if b.isEmpty then none else some b
  | .commit t => c.live[t]?.bind fun tx => tx.batch? c.store
  | _ => none

theorem exists_live (ht : t ∈ c.live) : ∃ tx, c.live[t]? = some tx :=
  Option.isSome_iff_exists.1 (TreeMap.mem_iff_isSome_getElem?.1 ht)

theorem step_of_not_live (hl : c.live[t]? = none) (hr : r.tx? = some t) :
    c.step r = (.error .finishedTransaction, c) := by
  cases r with
  | txGet _ _ | txPut _ _ _ | commit _ | rollback _ | drop _ =>
      cases hr
      simp [step, withTransaction, hl]
  | get _ | put _ _ | putAll _ | query _ | size | begin => cases hr

theorem batch?_of_not_live (hl : c.live[t]? = none) (hr : r.tx? = some t) :
    c.batch? r = none := by
  cases r with
  | commit _ =>
      cases hr
      simp [batch?, hl]
  | txGet _ _ | txPut _ _ _ | rollback _ | drop _ => rfl
  | get _ | put _ _ | putAll _ | query _ | size | begin => cases hr

theorem batch?_commit (hl : c.live[t]? = some tx) : c.batch? (.commit t) = tx.batch? c.store := by
  simp [batch?, hl]

theorem step_txGet (hl : c.live[t]? = some tx) (k : Key) :
    c.step (.txGet t k) = (.ok (tx.get c.store k).1,
      { c with live := c.live.insert t (tx.get c.store k).2 }) := by
  simp [step, withTransaction, hl]

theorem step_txPut_of_ok {s : Store} {tx' : Transaction} {k : Key} {v : Value}
    (hl : c.live[t]? = some tx) (hp : tx.put c.store k v = .ok (s, tx')) :
    c.step (.txPut t k v) = (.ok (), { store := s, live := c.live.insert t tx' }) := by
  simp [step, withTransaction, hl, hp]

theorem step_txPut_of_error {e : CacheError} {k : Key} {v : Value}
    (hl : c.live[t]? = some tx) (hp : tx.put c.store k v = .error e) :
    c.step (.txPut t k v) = (.error e, c) := by
  simp [step, withTransaction, hl, hp]

theorem step_commit (hl : c.live[t]? = some tx) :
    c.step (.commit t) = ((tx.commit c.store).1,
      { store := (tx.commit c.store).2, live := c.live.erase t }) := by
  simp [step, withTransaction, hl]

theorem step_rollback (hl : c.live[t]? = some tx) :
    c.step (.rollback t) = (.ok (), { store := tx.close c.store, live := c.live.erase t }) := by
  simp [step, withTransaction, hl]

theorem step_drop (hl : c.live[t]? = some tx) :
    c.step (.drop t) = (.ok (), { store := tx.close c.store, live := c.live.erase t }) := by
  simp [step, withTransaction, hl]

theorem step_begin (hs : c.store.settings.transactional) :
    c.step .begin = (.ok c.store.nextTx,
      { store := { c.store with nextTx := c.store.nextTx + 1 },
        live := c.live.insert c.store.nextTx { id := c.store.nextTx } }) := by
  simp [step, Store.begin, hs]

theorem step_begin_of_not_transactional (hs : ¬ c.store.settings.transactional) :
    c.step .begin =
      (.error (.transactionsUnsupported ("cache " ++ c.store.settings.name)), c) := by
  simp [step, Store.begin, hs]

/-- Whichever way a transaction ends, its locks go last and it is not open any more. -/
theorem step_of_ends (hl : c.live[t]? = some tx) (hr : r.Ends t) :
    (c.step r).2 =
      { store := tx.close (c.store.applied (c.batch? r)), live := c.live.erase t } := by
  rcases hr with rfl | rfl | rfl
  · rw [step_commit hl, Transaction.commit_store, batch?_commit hl]
  · rw [step_rollback hl]
    rfl
  · rw [step_drop hl]
    rfl

@[simp] theorem settings_ofSettings (settings : Settings) :
    (ofSettings settings).store.settings = settings := rfl

theorem not_live_or_live (c : Cache) (r : Request) :
    (∃ t, r.tx? = some t ∧ c.live[t]? = none) ∨
      ∀ t, r.tx? = some t → ∃ tx, c.live[t]? = some tx := by
  by_cases hn : ∃ t, r.tx? = some t ∧ c.live[t]? = none
  · exact .inl hn
  · exact .inr fun t hr => Option.ne_none_iff_exists'.1 fun hl => hn ⟨t, hr, hl⟩

/-! ## The store -/

/-- Outside its lock table and its transaction counter a store changes by the applied batch. -/
theorem step_store (c : Cache) (r : Request) :
    ∃ locks nextTx, (c.store.nextTx ≤ nextTx ∧ nextTx ≤ c.store.nextTx + 1) ∧
      (c.step r).2.store = { c.store.applied (c.batch? r) with locks, nextTx } := by
  have hsame : c.store.nextTx ≤ c.store.nextTx ∧ c.store.nextTx ≤ c.store.nextTx + 1 :=
    ⟨le_refl _, Nat.le_succ _⟩
  rcases c.not_live_or_live r with ⟨t, hr, hl⟩ | hlive
  · rw [step_of_not_live hl hr, batch?_of_not_live hl hr]
    exact ⟨_, _, hsame, rfl⟩
  cases r with
  | get _ | put _ _ | query _ | size => exact ⟨_, _, hsame, rfl⟩
  | putAll b =>
      refine ⟨c.store.locks, c.store.nextTx, hsame, ?_⟩
      by_cases hb : b.isEmpty
      · simp [step, batch?, Store.putAll, hb]
      · simp only [step, batch?, Store.putAll, hb]
        rfl
  | begin =>
      by_cases hs : c.store.settings.transactional
      · rw [step_begin hs]
        exact ⟨_, _, ⟨Nat.le_succ _, le_refl _⟩, rfl⟩
      · rw [step_begin_of_not_transactional hs]
        exact ⟨_, _, hsame, rfl⟩
  | txGet t k =>
      obtain ⟨tx, hl⟩ := hlive t rfl
      rw [step_txGet hl]
      exact ⟨_, _, hsame, rfl⟩
  | txPut t k v =>
      obtain ⟨tx, hl⟩ := hlive t rfl
      cases hp : tx.put c.store k v with
      | error e =>
          rw [step_txPut_of_error hl hp]
          exact ⟨_, _, hsame, rfl⟩
      | ok p =>
          rw [step_txPut_of_ok hl hp]
          rcases Transaction.put_eq_ok_iff.1 hp with ⟨-, -, hk, -⟩ | ⟨-, hp, -⟩
          · rcases Store.lock?_eq_some_iff.1 hk with ⟨-, hp⟩ | ⟨-, hp⟩
            · rw [hp]
              exact ⟨_, _, hsame, rfl⟩
            · rw [hp]
              exact ⟨_, _, hsame, rfl⟩
          · rw [hp]
            exact ⟨_, _, hsame, rfl⟩
  | commit t | rollback t | drop t =>
      obtain ⟨tx, hl⟩ := hlive t rfl
      rw [step_of_ends (t := t) hl (by simp [Request.Ends])]
      exact ⟨_, _, (Store.nextTx_applied c.store _).symm ▸ hsame, rfl⟩

@[simp] theorem settings_step (c : Cache) (r : Request) :
    (c.step r).2.store.settings = c.store.settings := by
  obtain ⟨locks, nextTx, -, hs⟩ := c.step_store r
  rw [hs]
  exact c.store.settings_applied _

theorem entries_step (c : Cache) (r : Request) :
    (c.step r).2.store.entries = (c.store.applied (c.batch? r)).entries := by
  obtain ⟨locks, nextTx, -, hs⟩ := c.step_store r
  rw [hs]

theorem nextVersion_step (c : Cache) (r : Request) :
    (c.step r).2.store.nextVersion = (c.store.applied (c.batch? r)).nextVersion := by
  obtain ⟨locks, nextTx, -, hs⟩ := c.step_store r
  rw [hs]

theorem nextTx_le_step (c : Cache) (r : Request) :
    c.store.nextTx ≤ (c.step r).2.store.nextTx := by
  obtain ⟨locks, nextTx, ⟨hle, -⟩, hs⟩ := c.step_store r
  rw [hs]
  exact hle

theorem nextTx_step_le (c : Cache) (r : Request) :
    (c.step r).2.store.nextTx ≤ c.store.nextTx + 1 := by
  obtain ⟨locks, nextTx, ⟨-, hle⟩, hs⟩ := c.step_store r
  rw [hs]
  exact hle

theorem latest_step_of_not_written (c : Cache) (r : Request) {k : Key}
    (hk : ∀ b, c.batch? r = some b → k ∉ b) :
    (c.step r).2.store.entries.latest[k]? = c.store.entries.latest[k]? := by
  rw [entries_step]
  cases hb : c.batch? r with
  | none => rfl
  | some b => exact Entries.latest_putAll_of_not_mem _ _ _ b (hk b hb)

/-! ## The open transactions -/

theorem live_step_of_other (hr : r.tx? ≠ some t) (hb : r = .begin → t ≠ c.store.nextTx) :
    (c.step r).2.live[t]? = c.live[t]? := by
  rcases c.not_live_or_live r with ⟨t', hr', hl⟩ | hopen
  · rw [step_of_not_live hl hr']
  have hlive : ∀ t', r.tx? = some t' → t' ≠ t ∧ ∃ tx, c.live[t']? = some tx := fun t' hr' =>
    ⟨fun he => hr (he ▸ hr'), hopen t' hr'⟩
  cases r with
  | get _ | put _ _ | putAll _ | query _ | size => rfl
  | begin =>
      by_cases hs : c.store.settings.transactional
      · rw [step_begin hs]
        simp [TreeMap.getElem?_insert, (hb rfl).symm]
      · rw [step_begin_of_not_transactional hs]
  | txGet t' k =>
      obtain ⟨hne, tx, hl⟩ := hlive t' rfl
      rw [step_txGet hl]
      simp [TreeMap.getElem?_insert, hne]
  | txPut t' k v =>
      obtain ⟨hne, tx, hl⟩ := hlive t' rfl
      cases hp : tx.put c.store k v with
      | error e => rw [step_txPut_of_error hl hp]
      | ok p =>
          rw [step_txPut_of_ok hl hp]
          simp [TreeMap.getElem?_insert, hne]
  | commit t' | rollback t' | drop t' =>
      obtain ⟨hne, tx, hl⟩ := hlive t' rfl
      rw [step_of_ends (t := t') hl (by simp [Request.Ends])]
      simp [TreeMap.getElem?_erase, hne]

theorem live_step_of_own (hl : c.live[t]? = some tx) (hr : r.tx? = some t) :
    (c.step r).2.live[t]? = tx.step? c.store r := by
  cases r with
  | get _ | put _ _ | putAll _ | query _ | size | begin => cases hr
  | txGet _ k =>
      cases hr
      rw [step_txGet hl]
      simp [Transaction.step?]
  | txPut _ k v =>
      cases hr
      cases hp : tx.put c.store k v with
      | error e =>
          rw [step_txPut_of_error hl hp]
          simp [Transaction.step?, hp, hl]
      | ok p =>
          rw [step_txPut_of_ok hl hp]
          simp [Transaction.step?, hp]
  | commit _ | rollback _ | drop _ =>
      cases hr
      rw [step_of_ends hl (by simp [Request.Ends])]
      simp [Transaction.step?]

/-- An open transaction was begun just now, or was open before and moved by a request of its own,
or was open before and left alone. -/
theorem live_step_eq_some {tx' : Transaction} (h : (c.step r).2.live[t]? = some tx') :
    (r = .begin ∧ t = c.store.nextTx ∧ tx' = { id := t }) ∨
      (r.tx? = some t ∧ ∃ tx, c.live[t]? = some tx ∧ tx.step? c.store r = some tx') ∨
        (r.tx? ≠ some t ∧ c.live[t]? = some tx') := by
  by_cases hr : r.tx? = some t
  · cases hl : c.live[t]? with
    | none =>
        rw [step_of_not_live hl hr, hl] at h
        cases h
    | some tx =>
        rw [live_step_of_own hl hr] at h
        exact .inr (.inl ⟨hr, tx, rfl, h⟩)
  by_cases hb : r = .begin ∧ t = c.store.nextTx
  · obtain ⟨rfl, rfl⟩ := hb
    by_cases hs : c.store.settings.transactional
    · rw [step_begin hs] at h
      simp only [TreeMap.getElem?_insert_self, Option.some.injEq] at h
      exact .inl ⟨rfl, rfl, h.symm⟩
    · rw [step_begin_of_not_transactional hs] at h
      exact .inr (.inr ⟨hr, h⟩)
  · rw [live_step_of_other hr fun hbegin ht => hb ⟨hbegin, ht⟩] at h
    exact .inr (.inr ⟨hr, h⟩)

/-- Open transactions stand under their own numbers, and the next number is unused. -/
def Numbered (c : Cache) : Prop :=
  ∀ t tx, c.live[t]? = some tx → tx.id = t ∧ t < c.store.nextTx

theorem numbered_ofSettings (settings : Settings) : (ofSettings settings).Numbered := by
  intro t tx h
  simp [ofSettings] at h

theorem Numbered.step (h : c.Numbered) (r : Request) : (c.step r).2.Numbered := by
  intro t tx' hl
  rcases live_step_eq_some hl with ⟨rfl, rfl, rfl⟩ | ⟨-, tx, hl', hs⟩ | ⟨-, hl'⟩
  · refine ⟨rfl, ?_⟩
    by_cases ht : c.store.settings.transactional
    · rw [step_begin ht]
      exact Nat.lt_succ_self _
    · rw [step_begin_of_not_transactional ht] at hl
      exact absurd (h _ _ hl).2 (lt_irrefl _)
  · obtain ⟨hid, hlt⟩ := h t tx hl'
    exact ⟨(Transaction.step?_id hs).trans hid, Nat.lt_of_lt_of_le hlt (c.nextTx_le_step r)⟩
  · obtain ⟨hid, hlt⟩ := h t tx' hl'
    exact ⟨hid, Nat.lt_of_lt_of_le hlt (c.nextTx_le_step r)⟩

theorem live_step_of_not_ends (hn : c.Numbered) (hl : c.live[t]? = some tx) (hr : ¬ r.Ends t) :
    ∃ tx', (c.step r).2.live[t]? = some tx' := by
  by_cases ht : r.tx? = some t
  · rw [live_step_of_own hl ht]
    apply Option.ne_none_iff_exists'.1
    exact fun hnone => hr ((Transaction.step?_eq_none_iff ht).1 hnone)
  · have hne : t ≠ c.store.nextTx := Nat.ne_of_lt (hn t tx hl).2
    exact ⟨tx, by rw [live_step_of_other ht fun _ => hne, hl]⟩

end Cache

end CacheBench
