import CacheBench.Proofs.MapRefinement
import CacheBench.Proofs.ReadOnly

/-!
# What a transaction reads

A get has its answer from one of three places: the last put of the key by the transaction itself,
the store at the first get of the key if reads are repeatable, or else the store as it is. Neither
what others have put and not committed nor a get of theirs has a part in it: `SameFor` relates two
caches that agree in their store and in some of the open transactions, and the requests of those
transactions cannot tell the two apart.
-/

namespace CacheBench

open Std (TreeMap)

namespace Cache

/-! ## Transactions that cannot be told apart -/

/-- The caches have one store, and each transaction with the property `p` is open in both or in
neither, in the same state. -/
structure SameFor (p : TxId → Prop) (c c' : Cache) : Prop where
  store : c.store = c'.store
  live : ∀ t, p t → c.live[t]? = c'.live[t]?

section

variable {p : TxId → Prop} {s s' : Store} {live live' : TreeMap TxId Transaction}

theorem SameFor.insert (h : SameFor p ⟨s, live⟩ ⟨s, live'⟩) (t : TxId) (tx : Transaction) :
    SameFor p ⟨s', live.insert t tx⟩ ⟨s', live'.insert t tx⟩ := by
  refine ⟨rfl, fun t' ht' => ?_⟩
  have hsame : live[t']? = live'[t']? := h.live t' ht'
  rw [TreeMap.getElem?_insert, TreeMap.getElem?_insert, hsame]

theorem SameFor.erase (h : SameFor p ⟨s, live⟩ ⟨s, live'⟩) (t : TxId) :
    SameFor p ⟨s', live.erase t⟩ ⟨s', live'.erase t⟩ := by
  refine ⟨rfl, fun t' ht' => ?_⟩
  have hsame : live[t']? = live'[t']? := h.live t' ht'
  rw [TreeMap.getElem?_erase, TreeMap.getElem?_erase, hsame]

/-- A request from outside or of one of the transactions is answered alike. -/
theorem SameFor.step {c c' : Cache} (h : SameFor p c c') (r : Request)
    (hr : ∀ t, r.tx? = some t → p t) :
    (c.step r).1 = (c'.step r).1 ∧ SameFor p (c.step r).2 (c'.step r).2 := by
  obtain ⟨s, live⟩ := c
  obtain ⟨s', live'⟩ := c'
  obtain rfl : s = s' := h.store
  rcases not_live_or_live ⟨s, live⟩ r with ⟨t, ht, hl⟩ | hopen
  · have hl' : live'[t]? = none := (h.live t (hr t ht)).symm.trans hl
    rw [step_of_not_live hl ht, step_of_not_live (c := ⟨s, live'⟩) hl' ht]
    exact ⟨rfl, h⟩
  have hboth : ∀ t, r.tx? = some t → ∃ tx, live[t]? = some tx ∧ live'[t]? = some tx := by
    intro t ht
    obtain ⟨tx, hl⟩ := hopen t ht
    exact ⟨tx, hl, (h.live t (hr t ht)).symm.trans hl⟩
  cases r with
  | get _ | put _ _ | putAll _ | query _ | size => exact ⟨rfl, ⟨rfl, h.live⟩⟩
  | begin =>
      by_cases hs : s.settings.transactional
      · rw [step_begin (c := ⟨s, live⟩) hs, step_begin (c := ⟨s, live'⟩) hs]
        exact ⟨rfl, h.insert _ _⟩
      · rw [step_begin_of_not_transactional (c := ⟨s, live⟩) hs,
          step_begin_of_not_transactional (c := ⟨s, live'⟩) hs]
        exact ⟨rfl, h⟩
  | txGet t k =>
      obtain ⟨tx, hl, hl'⟩ := hboth t rfl
      rw [step_txGet (c := ⟨s, live⟩) hl, step_txGet (c := ⟨s, live'⟩) hl']
      exact ⟨rfl, h.insert _ _⟩
  | txPut t k v =>
      obtain ⟨tx, hl, hl'⟩ := hboth t rfl
      cases hp : tx.put s k v with
      | error e =>
          rw [step_txPut_of_error (c := ⟨s, live⟩) hl hp,
            step_txPut_of_error (c := ⟨s, live'⟩) hl' hp]
          exact ⟨rfl, h⟩
      | ok q =>
          rw [step_txPut_of_ok (c := ⟨s, live⟩) hl hp, step_txPut_of_ok (c := ⟨s, live'⟩) hl' hp]
          exact ⟨rfl, h.insert _ _⟩
  | commit t =>
      obtain ⟨tx, hl, hl'⟩ := hboth t rfl
      rw [step_commit (c := ⟨s, live⟩) hl, step_commit (c := ⟨s, live'⟩) hl']
      exact ⟨rfl, h.erase _⟩
  | rollback t =>
      obtain ⟨tx, hl, hl'⟩ := hboth t rfl
      rw [step_rollback (c := ⟨s, live⟩) hl, step_rollback (c := ⟨s, live'⟩) hl']
      exact ⟨rfl, h.erase _⟩
  | drop t =>
      obtain ⟨tx, hl, hl'⟩ := hboth t rfl
      rw [step_drop (c := ⟨s, live⟩) hl, step_drop (c := ⟨s, live'⟩) hl']
      exact ⟨rfl, h.erase _⟩

theorem SameFor.run {c c' : Cache} (h : SameFor p c c') {rs : List Request}
    (hrs : ∀ r ∈ rs, ∀ t, r.tx? = some t → p t) : (c.run rs).1 = (c'.run rs).1 := by
  induction rs generalizing c c' with
  | nil => rfl
  | cons r rs ih =>
      obtain ⟨hanswer, hafter⟩ := h.step r (hrs r List.mem_cons_self)
      have hrest := ih hafter fun r' hr' => hrs r' (List.mem_cons_of_mem r hr')
      simp only [Cache.run, hanswer, hrest]

end

/-- After a get the cache is the same for all but the transaction itself. -/
theorem sameFor_txGet (c : Cache) (t : TxId) (k : Key) :
    SameFor (· ≠ t) (c.step (.txGet t k)).2 c := by
  cases hl : c.live[t]? with
  | none =>
      rw [step_of_not_live hl rfl]
      exact ⟨rfl, fun _ _ => rfl⟩
  | some tx =>
      rw [step_txGet hl]
      refine ⟨rfl, fun t' ht' => ?_⟩
      rw [TreeMap.getElem?_insert, if_neg]
      exact fun he => ht' (Std.LawfulEqCmp.compare_eq_iff_eq.1 he).symm

/-! ## Puts of its own -/

variable (c : Cache) (rs : List Request) (t : TxId)

def LastPut (n : Nat) (k : Key) (w : Value) : Prop :=
  ∃ i < n, c.Answers rs i (.txPut t k w) (.ok ()) ∧
    ∀ j, i < j → j < n → ∀ w', ¬ c.Answers rs j (.txPut t k w') (.ok ())

/-- Transaction `t` has not put the key `k` before instant `n`. A put that failed does not count. -/
def NotPut (n : Nat) (k : Key) : Prop :=
  ∀ i < n, ∀ w, ¬ c.Answers rs i (.txPut t k w) (.ok ())

variable {c rs t} {n : Nat} {k : Key} {w : Value}

theorem LastPut.not_notPut (h : c.LastPut rs t n k w) : ¬ c.NotPut rs t n k := by
  obtain ⟨i, hin, hput, -⟩ := h
  exact fun hnot => hnot i hin w hput

theorem LastPut.unique {w' : Value} (h : c.LastPut rs t n k w) (h' : c.LastPut rs t n k w') :
    w = w' := by
  obtain ⟨i, hin, hput, hlast⟩ := h
  obtain ⟨j, hjn, hput', hlast'⟩ := h'
  rcases Nat.lt_trichotomy i j with hij | rfl | hij
  · exact absurd hput' (hlast j hij hjn w')
  · cases ((answers_iff c rs).1 hput).1.symm.trans ((answers_iff c rs).1 hput').1
    rfl
  · exact absurd hput (hlast' i hij hin w)

theorem getElem?_buffered_succ_of_put (h : c.Answers rs n (.txPut t k w) (.ok ())) :
    (c.buffered rs t (n + 1))[k]? = some w := by
  obtain ⟨hr, hx⟩ := (answers_iff c rs).1 h
  rw [buffered, calls_succ c hr, hx, List.foldl_append]
  simp [Exchange.call?, Call.buffer]

theorem getElem?_buffered_succ_of_not_put
    (h : ∀ w, ¬ c.Answers rs n (.txPut t k w) (.ok ())) :
    (c.buffered rs t (n + 1))[k]? = (c.buffered rs t n)[k]? := by
  cases hr : rs[n]? with
  | none =>
      rw [buffered, buffered, calls_succ_of_none]
      intro r hr'
      rw [hr] at hr'
      cases hr'
  | some r =>
      rw [buffered, buffered, calls_succ c hr, List.foldl_append]
      cases hcall : Exchange.call? t ⟨r, ((c.before rs n).step r).1⟩ with
      | none => rfl
      | some call =>
          have hexchange := Exchange.call?_eq_some_iff.1 hcall
          cases call with
          | get a answer => rfl
          | put a v =>
              have hne : ¬ a = k := by
                rintro rfl
                refine h v ?_
                rw [Answers, getElem?_run, hr]
                exact congrArg some hexchange
              simp [Call.buffer, TreeMap.getElem?_insert, hne]

/-- The buffer of a transaction has its last puts. -/
theorem buffered_spec (c : Cache) (rs : List Request) (t : TxId) (n : Nat) (k : Key) :
    (∀ w, (c.buffered rs t n)[k]? = some w → c.LastPut rs t n k w) ∧
      ((c.buffered rs t n)[k]? = none → c.NotPut rs t n k) := by
  induction n with
  | zero => exact ⟨fun w h => by simp [buffered, calls] at h, fun _ i hi => by omega⟩
  | succ n ih =>
      by_cases hput : ∃ w, c.Answers rs n (.txPut t k w) (.ok ())
      · obtain ⟨w, hw⟩ := hput
        rw [getElem?_buffered_succ_of_put hw]
        refine ⟨?_, fun h => by cases h⟩
        rintro _ ⟨⟩
        exact ⟨n, Nat.lt_succ_self n, hw, fun j hnj hjn => by omega⟩
      · have hnot : ∀ w, ¬ c.Answers rs n (.txPut t k w) (.ok ()) := fun w hw => hput ⟨w, hw⟩
        rw [getElem?_buffered_succ_of_not_put hnot]
        constructor
        · intro w hw
          obtain ⟨i, hin, hput, hlast⟩ := ih.1 w hw
          refine ⟨i, Nat.lt_succ_of_lt hin, hput, fun j hij hjn w' => ?_⟩
          rcases Nat.lt_succ_iff_lt_or_eq.1 hjn with hjn | rfl
          · exact hlast j hij hjn w'
          · exact hnot w'
        · intro hnone i hin w
          rcases Nat.lt_succ_iff_lt_or_eq.1 hin with hin | rfl
          · exact ih.2 hnone i hin w
          · exact hnot w

theorem LastPut.getElem?_buffered (h : c.LastPut rs t n k w) :
    (c.buffered rs t n)[k]? = some w := by
  obtain ⟨hsome, hnone⟩ := c.buffered_spec rs t n k
  cases hk : (c.buffered rs t n)[k]? with
  | none => exact absurd (hnone hk) h.not_notPut
  | some w' => rw [(hsome w' hk).unique h]

theorem NotPut.getElem?_buffered (h : c.NotPut rs t n k) : (c.buffered rs t n)[k]? = none := by
  cases hk : (c.buffered rs t n)[k]? with
  | none => rfl
  | some w => exact absurd h ((c.buffered_spec rs t n k).1 w hk).not_notPut

/-! ## Values in the store -/

variable {settings : Settings}

/-- What the store has for a key was written by a batch that was applied. -/
theorem exists_applies_of_get (h : ((ofSettings settings).before rs n).store.get k = some w) :
    ∃ i < n, ∃ b, (ofSettings settings).Applies rs i b ∧ b[k]? = some w := by
  induction n with
  | zero => simp [ofSettings, Store.get, Entries.value?] at h
  | succ n ih =>
      have hearlier : ((ofSettings settings).before rs n).store.get k = some w →
          ∃ i < n + 1, ∃ b, (ofSettings settings).Applies rs i b ∧ b[k]? = some w := by
        intro hget
        obtain ⟨i, hin, hi⟩ := ih hget
        exact ⟨i, Nat.lt_succ_of_lt hin, hi⟩
      cases hr : rs[n]? with
      | none =>
          rw [before_succ_of_none _ rs hr] at h
          exact hearlier h
      | some r =>
          rw [before_succ _ rs hr, Store.get, entries_step] at h
          cases hb : ((ofSettings settings).before rs n).batch? r with
          | none =>
              rw [hb] at h
              exact hearlier h
          | some b =>
              rw [hb, Store.applied_some, Store.apply, Entries.value?, Entries.latest_putAll] at h
              cases hk : b[k]? with
              | none =>
                  rw [hk] at h
                  exact hearlier h
              | some v =>
                  rw [hk] at h
                  exact ⟨n, Nat.lt_succ_self n, b, (applies_iff hr b).2 hb, by rw [hk]; exact h⟩

/-! ## The answer of a get -/

/-- The get of the key `k` by transaction `t` at instant `n` finds `v`, and nobody else notices. -/
structure Reads (c : Cache) (rs : List Request) (t : TxId) (n : Nat) (k : Key)
    (v : Option Value) : Prop where
  /-- Of its own puts the last one counts. -/
  own : ∀ w, c.LastPut rs t n k w → v = some w
  /-- Without one, a repeatable read finds what was committed at the first get of the key. -/
  first : c.NotPut rs t n k → c.store.settings.isolation ≠ .readCommitted →
    ∃ i ≤ n, c.FirstGet rs t i k ∧ v = (c.before rs i).store.get k
  /-- Any other read finds what is committed now. -/
  present : c.NotPut rs t n k → c.store.settings.isolation = .readCommitted →
    v = (c.before rs n).store.get k
  /-- What it has not put itself was written by a put or a commit. -/
  committed : c.NotPut rs t n k → ∀ w, v = some w → ∃ i < n, ∃ b, c.Applies rs i b ∧ b[k]? = some w
  /-- The answer does not depend on what other transactions have put and not committed. -/
  unbuffered : ∀ d, SameFor (· = t) (c.before rs n) d → (d.step (.txGet t k)).1 = .ok v
  /-- Entries, versions and locks stay as they are. -/
  store : (c.before rs (n + 1)).store = (c.before rs n).store
  /-- As long as the transaction does nothing more, the requests of all others are answered as they
  would have been without the get. -/
  unnoticed : ∀ rs', (∀ r ∈ rs', r.tx? ≠ some t) →
    ((c.before rs (n + 1)).run rs').1 = ((c.before rs n).run rs').1

variable {tx : Transaction}

theorem get_of_lastPut (hl : ((ofSettings settings).before rs n).live[t]? = some tx)
    (h : (ofSettings settings).LastPut rs t n k w) :
    (tx.get ((ofSettings settings).before rs n).store k).1 = some w := by
  have hw : tx.writes[k]? = some w := by rw [writes_eq_buffered n tx hl, h.getElem?_buffered]
  rw [Transaction.get_of_remembered (Transaction.remembered?_of_write hw)]

/-- A repeatable read of a key that was not put is as of its first get: the snapshot has the value,
or this is the first get. -/
theorem get_of_repeatable (hi : settings.isolation ≠ .readCommitted)
    (hl : ((ofSettings settings).before rs n).live[t]? = some tx) (hr : rs[n]? = some (.txGet t k))
    (h : (ofSettings settings).NotPut rs t n k) :
    ∃ i ≤ n, (ofSettings settings).FirstGet rs t i k ∧
      (tx.get ((ofSettings settings).before rs n).store k).1 =
        ((ofSettings settings).before rs i).store.get k := by
  have hw : tx.writes[k]? = none := by rw [writes_eq_buffered n tx hl, h.getElem?_buffered]
  have hs : ((ofSettings settings).before rs n).store.settings.isolation ≠ .readCommitted := by
    rwa [settings_before]
  cases hsn : tx.snapshot[k]? with
  | some v =>
      have hm : tx.remembered? ((ofSettings settings).before rs n).store k = some v := by
        simp [Transaction.remembered?_of_no_write hw, Transaction.repeatable, hi, hsn]
      obtain ⟨i, hin, hfirst, hget⟩ := snapshot_eq_first_get hi n tx hl k v hsn
      exact ⟨i, Nat.le_of_lt hin, hfirst, by rw [Transaction.get_of_remembered hm, hget]⟩
  | none =>
      have hm := (Transaction.remembered?_eq_none_iff hs).2 ⟨hw, hsn⟩
      refine ⟨n, Nat.le_refl n, ⟨⟨_, (answers_iff _ rs).2 ⟨hr, by rw [step_txGet hl]⟩⟩, ?_⟩, ?_⟩
      · exact not_got_of_not_remembered hi n tx hl k hw hsn
      · rw [Transaction.get_of_not_remembered hm]

theorem get_of_readCommitted (hi : settings.isolation = .readCommitted)
    (hl : ((ofSettings settings).before rs n).live[t]? = some tx)
    (h : (ofSettings settings).NotPut rs t n k) :
    (tx.get ((ofSettings settings).before rs n).store k).1 =
      ((ofSettings settings).before rs n).store.get k := by
  have hw : tx.writes[k]? = none := by rw [writes_eq_buffered n tx hl, h.getElem?_buffered]
  have hm : tx.remembered? ((ofSettings settings).before rs n).store k = none := by
    simp [Transaction.remembered?_of_no_write hw, Transaction.repeatable, hi]
  rw [Transaction.get_of_not_remembered hm]

/-- In every interleaving each get of an open transaction is answered: with its own last put of the
key, or else with the value committed at its first get of the key or, where only committed data is
promised, now. It reads nobody's buffer, and nobody sees that it was made. -/
theorem reads_of_live (settings : Settings) (rs : List Request) (t : TxId) (n : Nat) (k : Key)
    (ht : t ∈ ((ofSettings settings).before rs n).live) (hr : rs[n]? = some (.txGet t k)) :
    ∃ v, (ofSettings settings).Answers rs n (.txGet t k) (.ok v) ∧
      (ofSettings settings).Reads rs t n k v := by
  obtain ⟨tx, hl⟩ := exists_live ht
  have hanswer := step_txGet hl k
  have hsame := sameFor_txGet ((ofSettings settings).before rs n) t k
  rw [← before_succ _ rs hr] at hsame
  refine ⟨(tx.get ((ofSettings settings).before rs n).store k).1,
    (answers_iff _ rs).2 ⟨hr, by rw [hanswer]⟩, ?_⟩
  refine ⟨fun w => get_of_lastPut hl, fun h hi => get_of_repeatable hi hl hr h,
    fun h hi => get_of_readCommitted hi hl h, ?_, ?_, hsame.store, ?_⟩
  · intro h w hw
    by_cases hi : settings.isolation = .readCommitted
    · rw [get_of_readCommitted hi hl h] at hw
      exact exists_applies_of_get hw
    · obtain ⟨i, hin, -, hget⟩ := get_of_repeatable hi hl hr h
      rw [hget] at hw
      obtain ⟨j, hji, hj⟩ := exists_applies_of_get hw
      exact ⟨j, Nat.lt_of_lt_of_le hji hin, hj⟩
  · intro d hd
    have hd' := (hd.step (.txGet t k) fun t' ht' => (Option.some.inj ht').symm).1
    rw [← hd', hanswer]
  · intro rs' hrs'
    exact hsame.run fun r hr t' ht' he => hrs' r hr (he ▸ ht')

/-- The second transaction puts and commits what the first one reads, the first one puts another
key and fails to lock this one. -/
def replayedRead : List Request :=
  [.put 5 (.int 1), .begin, .begin, .txGet 1 5, .txPut 2 5 (.int 2), .txPut 1 6 (.int 3),
    .txPut 1 5 (.int 4), .txGet 1 5, .commit 2, .txGet 1 5]

def replayedSettings : Settings :=
  { name := "transactional", transactional := true, concurrency := .pessimistic }

theorem reads_of_live_replayedRead :
    (1 ∈ ((ofSettings replayedSettings).before replayedRead 9).live ∧
      replayedRead[9]? = some (.txGet 1 5)) ∧
    (ofSettings replayedSettings).Answers replayedRead 9 (.txGet 1 5) (.ok (some (.int 1))) ∧
      (ofSettings replayedSettings).Reads replayedRead 1 9 5 (some (.int 1)) := by
  have hlive : 1 ∈ ((ofSettings replayedSettings).before replayedRead 9).live := by decide
  obtain ⟨v, hv, hreads⟩ := reads_of_live replayedSettings replayedRead 1 9 5 hlive rfl
  obtain rfl : some (.int 1) = v := by
    cases hv
    rfl
  exact ⟨⟨hlive, rfl⟩, hv, hreads⟩

end Cache

end CacheBench
