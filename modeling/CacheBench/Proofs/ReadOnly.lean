import CacheBench.Proofs.Versions
import Mathlib.Tactic.IntervalCases

/-!
# What a transaction that only reads has seen

A repeatable transaction gets from its snapshot, for each key the value at its first get of it. The
first gets are made at different instants, and a commit without writes compares nothing, so the
values need not belong together: `skewedRead` is a run in which they do not. The reads are skewed
if, between the first gets of two keys, the first key is written and, in the same batch or later,
the second. They belong to one state between the first get and the commit unless they are skewed,
and if they are skewed no state has all the entries that were read.
-/

namespace CacheBench

open Std (TreeMap)

namespace Cache

variable (c : Cache) (rs : List Request) (t : TxId)

def FirstGet (i : Nat) (k : Key) : Prop :=
  (∃ v, c.Answers rs i (.txGet t k) (.ok v)) ∧
    ∀ i' < i, ∀ v, ¬ c.Answers rs i' (.txGet t k) (.ok v)

/-- Between the first gets of two keys the first key is written, and then or at once the second. -/
def Skewed : Prop :=
  ∃ i i' k k' w w', c.FirstGet rs t i k ∧ c.FirstGet rs t i' k' ∧
    i ≤ w ∧ w ≤ w' ∧ w' < i' ∧ c.WritesAt rs w k ∧ c.WritesAt rs w' k'

variable {settings : Settings} {rs t}

theorem FirstGet.unique {c : Cache} {i j : Nat} {k : Key} (hi : c.FirstGet rs t i k)
    (hj : c.FirstGet rs t j k) : i = j := by
  obtain ⟨⟨v, hv⟩, hfirst⟩ := hi
  obtain ⟨⟨w, hw⟩, hfirst'⟩ := hj
  rcases Nat.lt_trichotomy i j with hij | hij | hij
  · exact absurd hv (hfirst' i hij v)
  · exact hij
  · exact absurd hw (hfirst j hij w)

theorem writes_come_from_puts (n : Nat) (tx : Transaction)
    (hl : ((ofSettings settings).before rs n).live[t]? = some tx) :
    ∀ k ∈ tx.writes, ∃ i v, (ofSettings settings).Answers rs i (.txPut t k v) (.ok ()) := by
  refine live_induction (P := fun _ tx => ∀ k ∈ tx.writes, ∃ i v,
    (ofSettings settings).Answers rs i (.txPut t k v) (.ok ())) settings rs t ?_ ?_ ?_ n tx hl
  · intro _ _ _ k hk
    simp at hk
  · intro n r tx tx' hl hr ht hs ih k hk
    rcases Transaction.step?_eq_some hs with rfl | ⟨_, a, _, rfl⟩ | ⟨_, a, v, s', rfl, hp⟩
    · exact ih k hk
    · rw [Transaction.get_writes] at hk
      exact ih k hk
    · cases ht
      rw [Transaction.put_writes hp, TreeMap.mem_insert] at hk
      rcases hk with hk | hk
      · obtain rfl := Std.LawfulEqCmp.compare_eq_iff_eq.1 hk
        exact ⟨n, v, (answers_iff _ rs).2 ⟨hr, by rw [step_txPut_of_ok hl hp]⟩⟩
      · exact ih k hk
  · exact fun _ _ _ ih => ih

/-- A key that is neither in the snapshot nor among the writes has not been got. -/
theorem not_got_of_not_remembered (hi : settings.isolation ≠ .readCommitted) (n : Nat)
    (tx : Transaction) (hl : ((ofSettings settings).before rs n).live[t]? = some tx) :
    ∀ k, tx.writes[k]? = none → tx.snapshot[k]? = none →
      ∀ i < n, ∀ v, ¬ (ofSettings settings).Answers rs i (.txGet t k) (.ok v) := by
  refine live_induction (P := fun n tx => ∀ k, tx.writes[k]? = none → tx.snapshot[k]? = none →
    ∀ i < n, ∀ v, ¬ (ofSettings settings).Answers rs i (.txGet t k) (.ok v))
    settings rs t ?_ ?_ ?_ n tx hl
  · intro n ht _ k _ _ i hin v
    exact not_answers_of_not_begun ht (Nat.le_of_lt_succ hin) rfl v
  · intro n r tx tx' hl hr ht hs ih k hw hsn i hin v h
    have hs' : ((ofSettings settings).before rs n).store.settings.isolation ≠ .readCommitted := by
      rwa [settings_before]
    rcases Nat.lt_succ_iff_lt_or_eq.1 hin with hin | rfl
    · exact ih k (Transaction.step?_writes_none hs hw) (Transaction.step?_snapshot_none hs hsn)
        i hin v h
    · obtain rfl : r = .txGet t k := Option.some.inj (hr.symm.trans ((answers_iff _ rs).1 h).1)
      cases hs
      cases hm : tx.remembered? ((ofSettings settings).before rs i).store k with
      | none =>
          rw [Transaction.get_of_not_remembered hm, Transaction.observe_snapshot hs',
            if_pos rfl] at hsn
          cases hsn
      | some v' =>
          rw [Transaction.get_of_remembered hm] at hw hsn
          rw [(Transaction.remembered?_eq_none_iff hs').2 ⟨hw, hsn⟩] at hm
          cases hm
  · intro n tx ht ih k hw hsn i hin v h
    rcases Nat.lt_succ_iff_lt_or_eq.1 hin with hin | rfl
    · exact ih k hw hsn i hin v h
    · exact ht _ ((answers_iff _ rs).1 h).1 rfl

/-- The snapshot has the values at the first gets. -/
theorem snapshot_eq_first_get (hi : settings.isolation ≠ .readCommitted) (n : Nat)
    (tx : Transaction) (hl : ((ofSettings settings).before rs n).live[t]? = some tx) :
    ∀ k v, tx.snapshot[k]? = some v → ∃ i < n, (ofSettings settings).FirstGet rs t i k ∧
      ((ofSettings settings).before rs i).store.get k = v := by
  refine live_induction (P := fun n tx => ∀ k v, tx.snapshot[k]? = some v →
    ∃ i < n, (ofSettings settings).FirstGet rs t i k ∧
      ((ofSettings settings).before rs i).store.get k = v) settings rs t ?_ ?_ ?_ n tx hl
  · intro n _ _ k v hk
    simp at hk
  · intro n r tx tx' hl hr ht hs ih k v hk
    have hs' : ((ofSettings settings).before rs n).store.settings.isolation ≠ .readCommitted := by
      rwa [settings_before]
    have hold : tx.snapshot[k]? = some v → ∃ i < n + 1,
        (ofSettings settings).FirstGet rs t i k ∧
          ((ofSettings settings).before rs i).store.get k = v := by
      intro hk
      obtain ⟨i, hin, hfirst⟩ := ih k v hk
      exact ⟨i, by omega, hfirst⟩
    rcases Transaction.step?_eq_some hs with rfl | ⟨_, a, rfl, rfl⟩ | ⟨_, a, w, s', _, hp⟩
    · exact hold hk
    · cases ht
      cases hm : tx.remembered? ((ofSettings settings).before rs n).store a with
      | some v' =>
          rw [Transaction.get_of_remembered hm] at hk
          exact hold hk
      | none =>
          rw [Transaction.get_of_not_remembered hm, Transaction.observe_snapshot hs'] at hk
          by_cases hak : a = k
          · -- the key is taken from the store now, and was not got before
            subst a
            rw [if_pos rfl] at hk
            obtain ⟨hw, hsn⟩ := (Transaction.remembered?_eq_none_iff hs').1 hm
            refine ⟨n, Nat.lt_succ_self n, ⟨⟨v, ?_⟩, ?_⟩, Option.some.inj hk⟩
            · refine (answers_iff _ rs).2 ⟨hr, ?_⟩
              rw [step_txGet hl, Transaction.get_of_not_remembered hm, Option.some.inj hk]
            · exact not_got_of_not_remembered hi n tx hl k hw hsn
          · rw [if_neg hak] at hk
            exact hold hk
    · rw [Transaction.put_snapshot hp] at hk
      exact hold hk
  · intro n tx _ ih k v hk
    obtain ⟨i, hin, hfirst⟩ := ih k v hk
    exact ⟨i, by omega, hfirst⟩

/-- What a get returns is a put of the transaction or the value at the first get of the key. -/
theorem get_eq_first_get (hi : settings.isolation ≠ .readCommitted)
    (hput : ∀ i k v, ¬ (ofSettings settings).Answers rs i (.txPut t k v) (.ok ()))
    {n : Nat} {k : Key} {v : Option Value}
    (h : (ofSettings settings).Answers rs n (.txGet t k) (.ok v)) :
    ∃ i ≤ n, (ofSettings settings).FirstGet rs t i k ∧
      ((ofSettings settings).before rs i).store.get k = v := by
  have hs : ((ofSettings settings).before rs n).store.settings.isolation ≠ .readCommitted := by
    rwa [settings_before]
  obtain ⟨tx, hl⟩ := live_of_answers rfl h
  obtain ⟨hr, hx⟩ := (answers_iff _ rs).1 h
  have hw : tx.writes[k]? = none := by
    apply TreeMap.getElem?_eq_none
    intro hk
    obtain ⟨i, w, hi'⟩ := writes_come_from_puts n tx hl k hk
    exact hput i k w hi'
  rw [step_txGet hl] at hx
  cases hsn : tx.snapshot[k]? with
  | some v' =>
      have hm : tx.remembered? ((ofSettings settings).before rs n).store k = some v' := by
        simp [Transaction.remembered?, hw, hsn, Transaction.repeatable, hi]
      rw [Transaction.get_of_remembered hm] at hx
      obtain rfl : v' = v := Except.ok.inj hx
      obtain ⟨i, hin, hfirst⟩ := snapshot_eq_first_get hi n tx hl k v' hsn
      exact ⟨i, Nat.le_of_lt hin, hfirst⟩
  | none =>
      have hm := (Transaction.remembered?_eq_none_iff hs).2 ⟨hw, hsn⟩
      rw [Transaction.get_of_not_remembered hm] at hx
      exact ⟨n, le_refl n, ⟨⟨v, h⟩, not_got_of_not_remembered hi n tx hl k hw hsn⟩,
        Except.ok.inj hx⟩

/-! ## One state for all gets -/

/-- Transaction `t` only gets, for the first time at instant `f`, and commits at `j`. -/
structure ReadsOnly (c : Cache) (rs : List Request) (t : TxId) (f j : Nat) : Prop where
  get : ∃ k v, c.Answers rs f (.txGet t k) (.ok v)
  first : ∀ i < f, ∀ k v, ¬ c.Answers rs i (.txGet t k) (.ok v)
  no_put : ∀ i k v, ¬ c.Answers rs i (.txPut t k v) (.ok ())
  commit : c.Answers rs j (.commit t) (.ok ())

variable {f j : Nat}

theorem lt_commit_of_answers {i : Nat} {k : Key} {v : Option Value}
    (hc : (ofSettings settings).Answers rs j (.commit t) (.ok ()))
    (hg : (ofSettings settings).Answers rs i (.txGet t k) (.ok v)) : i < j := by
  by_contra hle
  obtain ⟨hr, -⟩ := (answers_iff _ rs).1 hc
  obtain ⟨tx, hl⟩ := live_of_answers rfl hc
  obtain ⟨tx', hl'⟩ := live_of_answers rfl hg
  have hne : i ≠ j := by
    rintro rfl
    cases hr.symm.trans ((answers_iff _ rs).1 hg).1
  have hgone : ((ofSettings settings).before rs (j + 1)).live[t]? = none := by
    rw [before_succ _ rs hr, step_commit hl]
    simp
  have hlt : t < ((ofSettings settings).before rs (j + 1)).store.nextTx :=
    Nat.lt_of_lt_of_le (numbered_before _ rs (numbered_ofSettings settings) j t tx hl).2
      (nextTx_before_mono _ rs (Nat.le_succ j))
  rw [not_live_before_mono (by omega) hlt hgone] at hl'
  cases hl'

/-- Unless the reads are skewed, there is an instant between the first get and the commit such
that no key is written between it and the first get of the key. -/
theorem exists_quiet_instant (hr : (ofSettings settings).ReadsOnly rs t f j)
    (hs : ¬ (ofSettings settings).Skewed rs t) :
    ∃ m, f ≤ m ∧ m ≤ j ∧ ∀ i k, (ofSettings settings).FirstGet rs t i k →
      ∀ n, min i m ≤ n → n < max i m → ¬ (ofSettings settings).WritesAt rs n k := by
  classical
  -- the first instant at which a key that has been got is written, or the commit
  let Stale (m : Nat) : Prop := m = j ∨ ∃ i k, (ofSettings settings).FirstGet rs t i k ∧ i ≤ m ∧
    (ofSettings settings).WritesAt rs m k
  have hex : ∃ m, Stale m := ⟨j, .inl rfl⟩
  have hmj : Nat.find hex ≤ j := Nat.find_min' hex (.inl rfl)
  have hgets : ∀ i k, (ofSettings settings).FirstGet rs t i k → f ≤ i ∧ i < j := by
    rintro i k ⟨⟨v, hv⟩, -⟩
    exact ⟨Nat.le_of_not_lt fun hif => hr.first i hif k v hv, lt_commit_of_answers hr.commit hv⟩
  refine ⟨Nat.find hex, ?_, hmj, ?_⟩
  · rcases Nat.find_spec hex with hm | ⟨i, k, hfirst, him, -⟩
    · obtain ⟨k, v, hv⟩ := hr.get
      rw [hm]
      exact Nat.le_of_lt (lt_commit_of_answers hr.commit hv)
    · exact Nat.le_trans (hgets i k hfirst).1 him
  · intro i k hfirst n hmin hmax hk
    by_cases him : i ≤ Nat.find hex
    · -- a write after the get would have made its key stale before the instant
      rw [Nat.min_eq_left him] at hmin
      rw [Nat.max_eq_right him] at hmax
      exact Nat.find_min hex hmax (.inr ⟨i, k, hfirst, hmin, hk⟩)
    · -- a write before the get would follow the one that made another key stale
      rw [Nat.min_eq_right (by omega)] at hmin
      rw [Nat.max_eq_left (by omega)] at hmax
      rcases Nat.find_spec hex with hm | ⟨i₀, k₀, hfirst₀, him₀, hk₀⟩
      · have := (hgets i k hfirst).2
        omega
      · exact hs ⟨i₀, i, k₀, k, Nat.find hex, n, hfirst₀, hfirst, him₀, hmin, hmax, hk₀, hk⟩

theorem latest_before_of_quiet {i m : Nat} {k : Key}
    (hq : ∀ n, min i m ≤ n → n < max i m → ¬ c.WritesAt rs n k) :
    (c.before rs m).store.entries.latest[k]? = (c.before rs i).store.entries.latest[k]? := by
  by_cases him : i ≤ m
  · rw [Nat.min_eq_left him, Nat.max_eq_right him] at hq
    exact latest_before_of_not_written c rs him hq
  · rw [Nat.min_eq_right (by omega), Nat.max_eq_left (by omega)] at hq
    exact (latest_before_of_not_written c rs (by omega) hq).symm

/-- Some state between the first get and the commit has every entry that was read exactly if the
reads are not skewed. -/
theorem exists_state_of_entries_iff
    (hw : ((ofSettings settings).batches rs).length < 2 ^ 64 - 1)
    (hr : (ofSettings settings).ReadsOnly rs t f j) :
    (∃ m, f ≤ m ∧ m ≤ j ∧ ∀ i k, (ofSettings settings).FirstGet rs t i k →
      ((ofSettings settings).before rs m).store.entries.latest[k]? =
        ((ofSettings settings).before rs i).store.entries.latest[k]?) ↔
      ¬ (ofSettings settings).Skewed rs t := by
  constructor
  · rintro ⟨m, -, -, hm⟩ ⟨i, i', k, k', w, w', hfirst, hfirst', hiw, hww', hwi', hk, hk'⟩
    by_cases hmw : m ≤ w'
    · exact (latest_before_eq_iff hw (by omega) k').1 (hm i' k' hfirst').symm w' hmw hwi' hk'
    · exact (latest_before_eq_iff hw (by omega) k).1 (hm i k hfirst) w hiw (by omega) hk
  · intro hs
    obtain ⟨m, hfm, hmj, hquiet⟩ := exists_quiet_instant hr hs
    exact ⟨m, hfm, hmj, fun i k hfirst => latest_before_of_quiet _ (hquiet i k hfirst)⟩

/-- The values that a serializable transaction got belong to one state between its first get and
its commit, unless its reads are skewed. -/
theorem gets_of_one_state (settings : Settings) (hi : settings.isolation = .serializable)
    (rs : List Request) (t : TxId) (f j : Nat) (hr : (ofSettings settings).ReadsOnly rs t f j)
    (hs : ¬ (ofSettings settings).Skewed rs t) :
    ∃ m, f ≤ m ∧ m ≤ j ∧ ∀ i k v, (ofSettings settings).Answers rs i (.txGet t k) (.ok v) →
      ((ofSettings settings).before rs m).store.get k = v := by
  obtain ⟨m, hfm, hmj, hquiet⟩ := exists_quiet_instant hr hs
  refine ⟨m, hfm, hmj, ?_⟩
  intro i k v hv
  have hi' : settings.isolation ≠ .readCommitted := by simp [hi]
  obtain ⟨i₀, -, hfirst, hval⟩ := get_eq_first_get hi' hr.no_put hv
  have hentry := latest_before_of_quiet _ (hquiet i₀ k hfirst)
  rw [← hval]
  exact Entries.value?_eq_of_latest_eq hentry

def snapshotSettings (concurrency : Concurrency) : Settings :=
  { name := "transactional", transactional := true, concurrency, isolation := .serializable }

/-- The key `1` is written between the gets of `1` and `2`, and `2` is left alone. -/
def steadyRead : List Request :=
  [.begin, .txGet 1 1, .put 1 (.int 5), .txGet 1 2, .txGet 1 1, .commit 1]

theorem readsOnly_steadyRead :
    (ofSettings (snapshotSettings .optimistic)).ReadsOnly steadyRead 1 1 5 where
  get := ⟨1, none, rfl⟩
  first i hi k v h := by
    obtain rfl : i = 0 := by omega
    cases ((answers_iff _ _).1 h).1
  no_put i k v h := by
    have hr := ((answers_iff _ _).1 h).1
    have hi : i < 6 := (List.getElem?_eq_some_iff.1 hr).1
    interval_cases i <;> cases hr
  commit := rfl

theorem not_skewed_steadyRead :
    ¬ (ofSettings (snapshotSettings .optimistic)).Skewed steadyRead 1 := by
  rintro ⟨i, i', k, k', w, w', -, ⟨⟨v, hv⟩, hno⟩, -, -, hwi', -, ⟨r, b, hr, hb, hk⟩⟩
  have hget := ((answers_iff _ _).1 hv).1
  have hi' : i' < 6 := (List.getElem?_eq_some_iff.1 hget).1
  -- the only write is that of `1`, which is got first before it
  have hwrite : w' = 2 ∧ k' = 1 := by
    have hw' : w' < 5 := by omega
    interval_cases w' <;> cases hr <;> cases hb
    refine ⟨rfl, ?_⟩
    rcases TreeMap.mem_insert.1 (show k' ∈ (∅ : Batch).insert 1 (.int 5) from hk) with he | he
    · exact (Std.LawfulEqCmp.compare_eq_iff_eq.1 he).symm
    · simp at he
  obtain ⟨rfl, rfl⟩ := hwrite
  exact hno 1 (by omega) none rfl

theorem gets_of_one_state_steadyRead :
    ((ofSettings (snapshotSettings .optimistic)).ReadsOnly steadyRead 1 1 5 ∧
      ¬ (ofSettings (snapshotSettings .optimistic)).Skewed steadyRead 1) ∧
    ∃ m, 1 ≤ m ∧ m ≤ 5 ∧ ∀ i k v,
      (ofSettings (snapshotSettings .optimistic)).Answers steadyRead i (.txGet 1 k) (.ok v) →
        ((ofSettings (snapshotSettings .optimistic)).before steadyRead m).store.get k = v :=
  ⟨⟨readsOnly_steadyRead, not_skewed_steadyRead⟩,
    gets_of_one_state (snapshotSettings .optimistic) rfl steadyRead 1 1 5 readsOnly_steadyRead
      not_skewed_steadyRead⟩

/-- Both keys are written at once between the gets of them. -/
def skewedRead : List Request :=
  [.begin, .txGet 1 1, .putAll (Batch.ofList [(1, .int 5), (2, .int 6)]), .txGet 1 2, .commit 1]

theorem skewedRead_has_no_state (concurrency : Concurrency) :
    (ofSettings (snapshotSettings concurrency)).ReadsOnly skewedRead 1 1 4 ∧
      ¬ ∃ m, 1 ≤ m ∧ m ≤ 4 ∧ ∀ i k v,
        (ofSettings (snapshotSettings concurrency)).Answers skewedRead i (.txGet 1 k) (.ok v) →
          ((ofSettings (snapshotSettings concurrency)).before skewedRead m).store.get k = v := by
  refine ⟨⟨⟨1, none, by cases concurrency <;> rfl⟩, ?_, ?_, by cases concurrency <;> rfl⟩, ?_⟩
  · intro i hi k v h
    obtain rfl : i = 0 := by omega
    cases ((answers_iff _ _).1 h).1
  · intro i k v h
    have hr := ((answers_iff _ _).1 h).1
    have hi : i < 5 := (List.getElem?_eq_some_iff.1 hr).1
    interval_cases i <;> cases hr
  · rintro ⟨m, hfm, hmj, h⟩
    have h₁ := h 1 1 none (by cases concurrency <;> rfl)
    have h₂ := h 3 2 (some (.int 6)) (by cases concurrency <;> rfl)
    interval_cases m
    · cases concurrency <;> cases h₂
    · cases concurrency <;> cases h₂
    · cases concurrency <;> cases h₁
    · cases concurrency <;> cases h₁

/-- Skewed reads do occur, when keys are locked on write alone as well as when versions are compared
for writers alone. -/
theorem gets_not_always_of_one_state :
    ¬ ∀ settings : Settings, settings.isolation = .serializable →
      ∀ rs t f j, (ofSettings settings).ReadsOnly rs t f j →
        ∃ m, f ≤ m ∧ m ≤ j ∧ ∀ i k v, (ofSettings settings).Answers rs i (.txGet t k) (.ok v) →
          ((ofSettings settings).before rs m).store.get k = v := by
  intro h
  obtain ⟨hr, hno⟩ := skewedRead_has_no_state .pessimistic
  exact hno (h (snapshotSettings .pessimistic) rfl skewedRead 1 1 4 hr)

end Cache

end CacheBench
