import CacheBench.Proofs.Versions

/-!
# The calls of a transaction

A get answers with the value that the transaction has put to the key, or else with the value that
the store had at some earlier instant. `Consistent base w` says that a list of calls has the
answers it would have over a store with the values `base`, after the puts `w`. In a repeatable
cache the calls of an open transaction are consistent with whatever agrees with its snapshot, and
a commit that finds the versions unchanged has a store that does.
-/

namespace CacheBench

open Std (TreeMap)

/-- A get or a put of a transaction, with what the get returned. -/
inductive Call
  | get (k : Key) (answer : Option Value)
  | put (k : Key) (v : Value)

namespace Call

def exchange (t : TxId) : Call → Exchange CacheError
  | .get k answer => ⟨.txGet t k, .ok answer⟩
  | .put k v => ⟨.txPut t k v, .ok ()⟩

def isPut : Call → Bool
  | .get _ _ => false
  | .put _ _ => true

def buffer (w : Batch) : Call → Batch
  | .get _ _ => w
  | .put k v => w.insert k v

def AnsweredFrom (base : Key → Option Value) (w : Batch) : Call → Prop
  | .get k answer => answer = w[k]?.or (base k)
  | .put _ _ => True

/-- The calls have their answers from the values `base` and the puts before them. -/
def Consistent (base : Key → Option Value) : Batch → List Call → Prop
  | _, [] => True
  | w, x :: calls => x.AnsweredFrom base w ∧ Consistent base (x.buffer w) calls

theorem consistent_concat {base : Key → Option Value} {w : Batch} {calls : List Call} {x : Call} :
    Consistent base w (calls ++ [x]) ↔
      Consistent base w calls ∧ x.AnsweredFrom base (calls.foldl buffer w) := by
  induction calls generalizing w with
  | nil => simp [Consistent]
  | cons y calls ih => simp only [List.cons_append, Consistent, List.foldl_cons, ih, and_assoc]

theorem isEmpty_foldl_buffer (w : Batch) (calls : List Call) :
    (calls.foldl buffer w).isEmpty = (w.isEmpty && !calls.any isPut) := by
  induction calls generalizing w with
  | nil => simp
  | cons x calls ih =>
      rw [List.foldl_cons, ih]
      cases x with
      | get k answer => rfl
      | put k v => simp [buffer, isPut]

end Call

def Exchange.call? (t : TxId) : Exchange CacheError → Option Call
  | ⟨.txGet t' k, .ok answer⟩ => if t' = t then some (.get k answer) else none
  | ⟨.txPut t' k v, .ok ()⟩ => if t' = t then some (.put k v) else none
  | _ => none

theorem Exchange.call?_eq_some_iff {t : TxId} {x : Exchange CacheError} {call : Call} :
    x.call? t = some call ↔ x = call.exchange t := by
  constructor
  · intro h
    unfold call? at h
    split at h
    · split at h
      · rename_i ht
        subst ht
        cases h
        rfl
      · cases h
    · split at h
      · rename_i ht
        subst ht
        cases h
        rfl
      · cases h
    · cases h
  · rintro rfl
    cases call <;> simp [call?, Call.exchange]

namespace Cache

def calls (c : Cache) (rs : List Request) (t : TxId) (n : Nat) : List Call :=
  ((c.run rs).1.take n).filterMap (Exchange.call? t)

variable {settings : Settings} {rs : List Request} {t : TxId}

theorem calls_succ (c : Cache) {n : Nat} {r : Request} (hr : rs[n]? = some r) :
    c.calls rs t (n + 1) = c.calls rs t n ++
      (Exchange.call? t ⟨r, ((c.before rs n).step r).1⟩).toList := by
  have hx : (c.run rs).1[n]? = some ⟨r, ((c.before rs n).step r).1⟩ := by
    rw [getElem?_run, hr]
    rfl
  rw [calls, calls, List.take_add_one, hx, List.filterMap_append]
  cases h : Exchange.call? t ⟨r, ((c.before rs n).step r).1⟩ <;> simp [h]

theorem calls_succ_of_none (c : Cache) {n : Nat} (h : ∀ r, rs[n]? = some r →
    Exchange.call? t ⟨r, ((c.before rs n).step r).1⟩ = none) :
    c.calls rs t (n + 1) = c.calls rs t n := by
  cases hr : rs[n]? with
  | none =>
      have hx : (c.run rs).1[n]? = none := by rw [getElem?_run, hr, Option.map_none]
      rw [calls, calls, List.take_add_one, hx, Option.toList_none, List.append_nil]
  | some r => rw [calls_succ c hr, h r hr, Option.toList_none, List.append_nil]

theorem calls_of_not_begun {n : Nat}
    (ht : t = ((ofSettings settings).before rs n).store.nextTx) :
    (ofSettings settings).calls rs t (n + 1) = [] := by
  rw [calls, List.filterMap_eq_nil_iff]
  intro x hx
  obtain ⟨i, hi⟩ := List.mem_iff_getElem?.1 hx
  rw [List.getElem?_take] at hi
  split at hi
  · rename_i hin
    cases hc : x.call? t with
    | none => rfl
    | some call =>
        rw [Exchange.call?_eq_some_iff.1 hc] at hi
        cases call with
        | get k answer =>
            have hanswer : (ofSettings settings).Answers rs i (.txGet t k) (.ok answer) := hi
            exact (not_answers_of_not_begun ht (Nat.le_of_lt_succ hin) rfl _ hanswer).elim
        | put k v =>
            have hanswer : (ofSettings settings).Answers rs i (.txPut t k v) (.ok ()) := hi
            exact (not_answers_of_not_begun ht (Nat.le_of_lt_succ hin) rfl _ hanswer).elim
  · cases hi

/-- A request of an open transaction that leaves it open is an answered get, an answered put, or a
put that failed, and adds accordingly to its calls. -/
theorem calls_step {n : Nat} {tx tx' : Transaction} {r : Request}
    (hl : ((ofSettings settings).before rs n).live[t]? = some tx) (hr : rs[n]? = some r)
    (ht : r.tx? = some t) (hs : tx.step? ((ofSettings settings).before rs n).store r = some tx') :
    (∃ k, r = .txGet t k ∧ tx' = (tx.get ((ofSettings settings).before rs n).store k).2 ∧
        (ofSettings settings).calls rs t (n + 1) = (ofSettings settings).calls rs t n ++
          [.get k (tx.get ((ofSettings settings).before rs n).store k).1]) ∨
      (∃ k v s', r = .txPut t k v ∧
        tx.put ((ofSettings settings).before rs n).store k v = .ok (s', tx') ∧
          (ofSettings settings).calls rs t (n + 1) =
            (ofSettings settings).calls rs t n ++ [.put k v]) ∨
      (tx' = tx ∧ (∃ k v, r = .txPut t k v) ∧
        (ofSettings settings).calls rs t (n + 1) = (ofSettings settings).calls rs t n) := by
  have hcalls := calls_succ (ofSettings settings) (t := t) hr
  cases r with
  | get _ | put _ _ | putAll _ | query _ | size | begin => cases ht
  | txGet _ k =>
      cases ht
      cases hs
      refine .inl ⟨k, rfl, rfl, ?_⟩
      rw [hcalls, step_txGet hl]
      simp [Exchange.call?]
  | txPut _ k v =>
      cases ht
      cases hp : tx.put ((ofSettings settings).before rs n).store k v with
      | error e =>
          simp only [Transaction.step?, hp, Option.some.injEq] at hs
          refine .inr (.inr ⟨hs.symm, ⟨k, v, rfl⟩, ?_⟩)
          rw [hcalls, step_txPut_of_error hl hp]
          simp [Exchange.call?]
      | ok p =>
          simp only [Transaction.step?, hp, Option.some.injEq] at hs
          subst hs
          refine .inr (.inl ⟨k, v, p.1, rfl, hp, ?_⟩)
          rw [hcalls, step_txPut_of_ok hl hp]
          simp [Exchange.call?]
  | commit _ | rollback _ | drop _ => cases hs

theorem calls_of_not_own (c : Cache) {n : Nat} (h : ∀ r, rs[n]? = some r → r.tx? ≠ some t) :
    c.calls rs t (n + 1) = c.calls rs t n := by
  apply calls_succ_of_none
  intro r hr
  cases hc : Exchange.call? t ⟨r, ((c.before rs n).step r).1⟩ with
  | none => rfl
  | some call =>
      have hx := congrArg Exchange.request (Exchange.call?_eq_some_iff.1 hc)
      have htx : r.tx? = some t := by
        rw [show r = (call.exchange t).request from hx]
        cases call <;> rfl
      exact absurd htx (h r hr)

/-! ## What an open transaction has of its calls -/

/-- What transaction `t` has put before an instant, with the last value of each key. -/
def buffered (c : Cache) (rs : List Request) (t : TxId) (n : Nat) : Batch :=
  (c.calls rs t n).foldl Call.buffer ∅

theorem writes_eq_buffered (n : Nat) (tx : Transaction)
    (hl : ((ofSettings settings).before rs n).live[t]? = some tx) :
    tx.writes = (ofSettings settings).buffered rs t n := by
  refine live_induction (P := fun n tx => tx.writes = (ofSettings settings).buffered rs t n)
    settings rs t ?_ ?_ ?_ n tx hl
  · intro n ht _
    rw [buffered, calls_of_not_begun ht]
    rfl
  · intro n r tx tx' hl hr ht hs ih
    rcases calls_step hl hr ht hs with ⟨k, -, rfl, hcalls⟩ | ⟨k, v, s', -, hp, hcalls⟩ |
      ⟨rfl, -, hcalls⟩
    · rw [Transaction.get_writes, ih, buffered, buffered, hcalls, List.foldl_append]
      rfl
    · rw [Transaction.put_writes hp, ih, buffered, buffered, hcalls, List.foldl_append]
      rfl
    · rw [ih, buffered, buffered, hcalls]
  · intro n tx hr ih
    rw [ih, buffered, buffered, calls_of_not_own _ hr]

/-- The writes of a transaction are those that it has put. Its snapshot explains the answers of its
gets, and was taken from the store key by key with the versions of the values. -/
structure Faithful (c : Cache) (rs : List Request) (t : TxId) (n : Nat) (tx : Transaction) :
    Prop where
  writes : tx.writes = (c.calls rs t n).foldl Call.buffer ∅
  answers : ∀ base, tx.SnapshotOf base → Call.Consistent base ∅ (c.calls rs t n)
  read : ∀ (k : Key) (v : Option Value), tx.snapshot[k]? = some v →
    ∃ i < n, (c.before rs i).store.get k = v ∧
      tx.readVersions[k]? = some ((c.before rs i).store.entries.version k)
  unread : ∀ k : Key, tx.snapshot[k]? = none → tx.readVersions[k]? = none

variable {c : Cache} {n : Nat} {tx : Transaction}

theorem Faithful.idle (h : c.Faithful rs t n tx)
    (hcalls : c.calls rs t (n + 1) = c.calls rs t n) : c.Faithful rs t (n + 1) tx where
  writes := by rw [hcalls, h.writes]
  answers := by rw [hcalls]; exact h.answers
  read k v hk := by
    obtain ⟨i, hin, hread⟩ := h.read k v hk
    exact ⟨i, Nat.lt_succ_of_lt hin, hread⟩
  unread := h.unread

theorem Faithful.put (h : c.Faithful rs t n tx) {s s' : Store} {tx' : Transaction} {k : Key}
    {v : Value} (hp : tx.put s k v = .ok (s', tx'))
    (hcalls : c.calls rs t (n + 1) = c.calls rs t n ++ [.put k v]) :
    c.Faithful rs t (n + 1) tx' := by
  have hsnapshot := Transaction.put_snapshot hp
  have hversions := Transaction.put_readVersions hp
  refine ⟨?_, ?_, ?_, ?_⟩
  · rw [hcalls, List.foldl_append, ← h.writes, Transaction.put_writes hp]
    rfl
  · intro base hbase
    rw [Transaction.SnapshotOf, hsnapshot] at hbase
    rw [hcalls, Call.consistent_concat]
    exact ⟨h.answers base hbase, trivial⟩
  · intro a x ha
    rw [hsnapshot] at ha
    obtain ⟨i, hin, hread⟩ := h.read a x ha
    exact ⟨i, Nat.lt_succ_of_lt hin, hversions ▸ hread⟩
  · rw [hsnapshot, hversions]
    exact h.unread

theorem Faithful.get (h : c.Faithful rs t n tx) {k : Key}
    (hs : (c.before rs n).store.settings.isolation ≠ .readCommitted)
    (hcalls : c.calls rs t (n + 1) =
      c.calls rs t n ++ [.get k (tx.get (c.before rs n).store k).1]) :
    c.Faithful rs t (n + 1) (tx.get (c.before rs n).store k).2 := by
  have hanswers : ∀ base, (tx.get (c.before rs n).store k).2.SnapshotOf base →
      tx.SnapshotOf base → Call.Consistent base ∅ (c.calls rs t (n + 1)) := by
    intro base hbase hbase'
    rw [hcalls, Call.consistent_concat, ← h.writes]
    exact ⟨h.answers base hbase', Transaction.get_fst_eq hs hbase⟩
  have hwrites : (tx.get (c.before rs n).store k).2.writes =
      (c.calls rs t (n + 1)).foldl Call.buffer ∅ := by
    rw [Transaction.get_writes, hcalls, List.foldl_append, ← h.writes]
    rfl
  cases hm : tx.remembered? (c.before rs n).store k with
  | some v =>
      rw [Transaction.get_of_remembered hm] at hanswers hwrites ⊢
      refine ⟨hwrites, fun base hbase => hanswers base hbase hbase, ?_, h.unread⟩
      intro a x ha
      obtain ⟨i, hin, hread⟩ := h.read a x ha
      exact ⟨i, Nat.lt_succ_of_lt hin, hread⟩
  | none =>
      obtain ⟨-, hk⟩ := (Transaction.remembered?_eq_none_iff hs).1 hm
      rw [Transaction.get_of_not_remembered hm] at hanswers hwrites ⊢
      have hother : ∀ a v, tx.snapshot[a]? = some v → k ≠ a := by
        rintro a v ha rfl
        rw [hk] at ha
        cases ha
      refine ⟨hwrites, ?_, ?_, ?_⟩
      · intro base hbase
        refine hanswers base hbase fun a v ha => hbase a v ?_
        rw [Transaction.observe_snapshot hs, if_neg (hother a v ha), ha]
      · intro a v ha
        rw [Transaction.observe_snapshot hs] at ha
        rw [Transaction.observe_readVersions]
        by_cases hka : k = a
        · subst a
          rw [if_pos rfl] at ha
          exact ⟨n, Nat.lt_succ_self n, Option.some.inj ha, if_pos ⟨rfl, h.unread k hk⟩⟩
        · rw [if_neg hka] at ha
          obtain ⟨i, hin, hget, hread⟩ := h.read a v ha
          exact ⟨i, Nat.lt_succ_of_lt hin, hget, by rw [if_neg fun he => hka he.1, hread]⟩
      · intro a ha
        rw [Transaction.observe_snapshot hs] at ha
        rw [Transaction.observe_readVersions]
        by_cases hka : k = a
        · rw [if_pos hka] at ha
          cases ha
        · rw [if_neg hka] at ha
          rw [if_neg fun he => hka he.1, h.unread a ha]

theorem faithful_before (hi : settings.isolation ≠ .readCommitted) (n : Nat) (tx : Transaction)
    (hl : ((ofSettings settings).before rs n).live[t]? = some tx) :
    (ofSettings settings).Faithful rs t n tx := by
  refine live_induction (P := (ofSettings settings).Faithful rs t) settings rs t ?_ ?_ ?_ n tx hl
  · intro n ht _
    have hcalls := calls_of_not_begun ht
    refine ⟨by rw [hcalls]; rfl, ?_, ?_, ?_⟩
    · intro base _
      rw [hcalls]
      trivial
    · intro k v hk
      simp at hk
    · intro k _
      simp
  · intro n r tx tx' hl hr ht hs ih
    rcases calls_step hl hr ht hs with ⟨k, -, rfl, hcalls⟩ | ⟨k, v, s', -, hp, hcalls⟩ |
      ⟨rfl, -, hcalls⟩
    · exact ih.get (by rwa [settings_before]) hcalls
    · exact ih.put hp hcalls
    · exact ih.idle hcalls
  · intro n tx hr ih
    exact ih.idle (calls_of_not_own _ hr)

/-- When a serializable writer commits, its answers are those that the store gives at that time:
the versions it read are still there, and with them the values. -/
theorem consistent_of_commit (hw : ((ofSettings settings).batches rs).length < 2 ^ 64 - 1)
    (hc : settings.concurrency = .optimistic) (hi : settings.isolation = .serializable)
    (hl : ((ofSettings settings).before rs n).live[t]? = some tx) (hwrites : ¬ tx.writes.isEmpty)
    (hok : (tx.commit ((ofSettings settings).before rs n).store).1 = .ok ()) :
    Call.Consistent ((ofSettings settings).before rs n).store.get ∅
      ((ofSettings settings).calls rs t n) := by
  have hread : settings.isolation ≠ .readCommitted := by simp [hi]
  have h := faithful_before hread n tx hl
  apply h.answers
  intro k v hk
  obtain ⟨i, hin, hget, hr⟩ := h.read k v hk
  have hconflict := (Transaction.commit_ok_iff (by rwa [settings_before]) hwrites).1 hok
  have hversion := Transaction.conflict?_eq_none_iff.1 hconflict k _ hr
    (by simp [Transaction.checked, hi])
  have hquiet : ∀ m, i ≤ m → m < n → ¬ (ofSettings settings).WritesAt rs m k := by
    intro m him hmn hwrite
    have hlt := version_before_lt hw him hmn hwrite
    rw [hversion] at hlt
    exact lt_irrefl _ hlt
  have hlatest := latest_before_of_not_written _ rs (Nat.le_of_lt hin) hquiet
  exact (Entries.value?_eq_of_latest_eq hlatest).trans hget

end Cache

end CacheBench
