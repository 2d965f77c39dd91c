import CacheBench.Proofs.Calls

/-!
# The serial order of writers

A `Turn` is what writes to a cache at one time: a put from outside, or a transaction as a whole.
Each turn of a run is given a version when it is applied. In a serializable cache with optimistic
transactions the turns, taken alone and one after the other in the order of their versions, answer
as they did in the run and leave the entries that the run leaves.
-/

namespace CacheBench

open Std (TreeMap)

inductive Turn
  | put (k : Key) (v : Value)
  | putAll (b : Batch)
  | transaction (calls : List Call)

namespace Turn

def exchanges (t : TxId) : Turn → List (Exchange CacheError)
  | .put k v => [⟨.put k v, .ok ()⟩]
  | .putAll b => [⟨.putAll b, .ok ()⟩]
  | .transaction calls =>
    ⟨.begin, .ok t⟩ :: (calls.map (Call.exchange t) ++ [⟨.commit t, .ok ()⟩])

def nextTx (t : TxId) : Turn → TxId
  | .transaction _ => t + 1
  | .put _ _ | .putAll _ => t

/-- Turns one after the other, their transactions numbered from `t`. -/
def script : TxId → List Turn → List (Exchange CacheError)
  | _, [] => []
  | t, turn :: turns => turn.exchanges t ++ script (turn.nextTx t) turns

def batch : Turn → Batch
  | .put k v => Batch.ofList [(k, v)]
  | .putAll b => b
  | .transaction calls => calls.foldl Call.buffer ∅

/-- The turn that an exchange completes after the exchanges before it: a put that was applied, or
a transaction that was committed after at least one put. -/
def ofExchange? (past : List (Exchange CacheError)) : Exchange CacheError → Option Turn
  | ⟨.put k v, .ok ()⟩ => some (.put k v)
  | ⟨.putAll b, .ok ()⟩ => if b.isEmpty then none else some (.putAll b)
  | ⟨.commit t, .ok ()⟩ =>
    let calls := past.filterMap (Exchange.call? t)
    if calls.any Call.isPut then some (.transaction calls) else none
  | _ => none

/-- The turn can be taken on a store: it writes, and its gets have their answers from there. -/
def Fits (s : Store) : Turn → Prop
  | .put _ _ => True
  | .putAll b => ¬ b.isEmpty
  | .transaction calls => Call.Consistent s.get ∅ calls ∧ ¬ (calls.foldl Call.buffer ∅).isEmpty

theorem script_concat (t : TxId) (turns : List Turn) (turn : Turn) :
    script t (turns ++ [turn]) =
      script t turns ++ turn.exchanges (turns.foldl nextTx t) := by
  induction turns generalizing t with
  | nil => simp [script]
  | cons first turns ih =>
      rw [List.cons_append, script, ih, script, List.append_assoc]
      rfl

end Turn

namespace Store

/-- The stores differ in their locks and in their transaction numbers at most. -/
structure Alike (s s' : Store) : Prop where
  settings : s.settings = s'.settings
  entries : s.entries = s'.entries
  nextVersion : s.nextVersion = s'.nextVersion

theorem Alike.symm {s s' : Store} (h : s.Alike s') : s'.Alike s :=
  ⟨h.settings.symm, h.entries.symm, h.nextVersion.symm⟩

theorem Alike.trans {s s' s'' : Store} (h : s.Alike s') (h' : s'.Alike s'') : s.Alike s'' :=
  ⟨h.settings.trans h'.settings, h.entries.trans h'.entries, h.nextVersion.trans h'.nextVersion⟩

theorem Alike.apply {s s' : Store} (h : s.Alike s') (b : Batch) :
    (s.apply b).Alike (s'.apply b) := by
  refine ⟨h.settings, ?_, ?_⟩
  · simp only [Store.apply, h.settings, h.entries, h.nextVersion]
  · simp only [Store.apply, h.nextVersion]

theorem Alike.fits {s s' : Store} (h : s.Alike s') {turn : Turn} (hfits : turn.Fits s') :
    turn.Fits s := by
  have hget : s.get = s'.get := by
    funext k
    rw [Store.get, h.entries, Store.get]
  cases turn with
  | put k v => trivial
  | putAll b => exact hfits
  | transaction calls => exact ⟨hget ▸ hfits.1, hfits.2⟩

end Store

namespace Cache

/-! ## A transaction that is left alone -/

variable {d : Cache} {t : TxId} {tx : Transaction}

theorem run_append_of {c c' c'' : Cache} {rs rs' : List Request}
    {xs xs' : List (Exchange CacheError)} (h : c.run rs = (xs, c')) (h' : c'.run rs' = (xs', c'')) :
    c.run (rs ++ rs') = (xs ++ xs', c'') := by
  rw [run_append, h, h']

/-- All that an open transaction has read is still in the store. -/
structure Isolated (d : Cache) (t : TxId) (tx : Transaction) : Prop where
  live : d.live[t]? = some tx
  snapshot : tx.SnapshotOf d.store.get
  current : ∀ (k : Key) (r : Version), tx.readVersions[k]? = some r → d.store.entries.version k = r

theorem Isolated.get_remembers (h : d.Isolated t tx)
    (hi : d.store.settings.isolation ≠ .readCommitted) (k : Key) :
    (tx.get d.store k).2.SnapshotOf d.store.get ∧
      ∀ (a : Key) (r : Version), (tx.get d.store k).2.readVersions[a]? = some r →
        d.store.entries.version a = r := by
  cases hm : tx.remembered? d.store k with
  | some v =>
      rw [Transaction.get_of_remembered hm]
      exact ⟨h.snapshot, h.current⟩
  | none =>
      rw [Transaction.get_of_not_remembered hm]
      constructor
      · intro a v ha
        rw [Transaction.observe_snapshot hi] at ha
        by_cases hka : k = a
        · subst a
          rw [if_pos rfl] at ha
          exact Option.some.inj ha
        · rw [if_neg hka] at ha
          exact h.snapshot a v ha
      · intro a r ha
        rw [Transaction.observe_readVersions] at ha
        split at ha
        · rename_i hka
          exact hka.1 ▸ Option.some.inj ha
        · exact h.current a r ha

/-- A call is answered as it says and leaves the store alone. -/
theorem Isolated.run_call (h : d.Isolated t tx)
    (hc : d.store.settings.concurrency = .optimistic)
    (hi : d.store.settings.isolation = .serializable) (call : Call)
    (hx : call.AnsweredFrom d.store.get tx.writes) :
    ∃ d' tx', d.run [(call.exchange t).request] = ([call.exchange t], d') ∧ d'.Isolated t tx' ∧
      d'.store = d.store ∧ tx'.writes = call.buffer tx.writes := by
  cases call with
  | get k answer =>
      have hread : d.store.settings.isolation ≠ .readCommitted := by simp [hi]
      obtain ⟨hsnapshot, hcurrent⟩ := h.get_remembers hread k
      have hanswer : (tx.get d.store k).1 = answer :=
        (Transaction.get_fst_eq hread hsnapshot).trans hx.symm
      refine ⟨{ d with live := d.live.insert t (tx.get d.store k).2 }, (tx.get d.store k).2, ?_,
        ⟨by simp, hsnapshot, hcurrent⟩, rfl, Transaction.get_writes d.store tx k⟩
      simp only [run, Call.exchange, step_txGet h.live, hanswer]
  | put k v =>
      have hput : tx.put d.store k v = .ok (d.store, { tx with writes := tx.writes.insert k v }) :=
        Transaction.put_eq_ok_iff.2 (.inr ⟨by simp [hc], rfl, rfl⟩)
      refine ⟨{ d with live := d.live.insert t { tx with writes := tx.writes.insert k v } },
        { tx with writes := tx.writes.insert k v }, ?_,
        ⟨by simp, h.snapshot, h.current⟩, rfl, rfl⟩
      simp only [run, Call.exchange, step_txPut_of_ok h.live hput]

theorem Isolated.run_calls (h : d.Isolated t tx)
    (hc : d.store.settings.concurrency = .optimistic)
    (hi : d.store.settings.isolation = .serializable) (calls : List Call)
    (hx : Call.Consistent d.store.get tx.writes calls) :
    ∃ d' tx', d.run ((calls.map (Call.exchange t)).map Exchange.request) =
        (calls.map (Call.exchange t), d') ∧ d'.Isolated t tx' ∧
      d'.store = d.store ∧ tx'.writes = calls.foldl Call.buffer tx.writes := by
  induction calls generalizing d tx with
  | nil => exact ⟨d, tx, rfl, h, rfl, rfl⟩
  | cons call calls ih =>
      obtain ⟨hcall, hcalls⟩ := hx
      obtain ⟨d₁, tx₁, hrun₁, h₁, hstore₁, hwrites₁⟩ := h.run_call hc hi call hcall
      rw [← hstore₁] at hc hi
      rw [← hstore₁, ← hwrites₁] at hcalls
      obtain ⟨d₂, tx₂, hrun₂, h₂, hstore₂, hwrites₂⟩ := ih h₁ hc hi hcalls
      refine ⟨d₂, tx₂, ?_, h₂, hstore₂.trans hstore₁, by rw [hwrites₂, hwrites₁]; rfl⟩
      exact run_append_of hrun₁ hrun₂

/-- Nothing that it has read has changed, so it commits. -/
theorem Isolated.run_commit (h : d.Isolated t tx)
    (hc : d.store.settings.concurrency = .optimistic) (hw : ¬ tx.writes.isEmpty) :
    ∃ d', d.run [.commit t] = ([⟨.commit t, .ok ()⟩], d') ∧
      d'.store.Alike (d.store.apply tx.writes) ∧ d'.store.nextTx = d.store.nextTx := by
  have hconflict : tx.conflict? d.store = none :=
    Transaction.conflict?_eq_none_iff.2 fun k r hr _ => h.current k r hr
  have hok := (Transaction.commit_ok_iff hc hw).2 hconflict
  have hstore : (tx.commit d.store).2 = tx.close (d.store.apply tx.writes) := by
    rw [Transaction.commit_store, Transaction.batch?_of_ok hok hw]
    rfl
  refine ⟨{ store := (tx.commit d.store).2, live := d.live.erase t }, ?_, ?_, ?_⟩
  · simp only [run, step_commit h.live, hok]
  · rw [hstore]
    exact ⟨rfl, rfl, rfl⟩
  · rw [hstore]
    rfl

/-- A turn that fits the store runs as it says. -/
theorem run_turn (ht : d.store.settings.transactional)
    (hc : d.store.settings.concurrency = .optimistic)
    (hi : d.store.settings.isolation = .serializable) (turn : Turn) (hfits : turn.Fits d.store) :
    ∃ d', d.run ((turn.exchanges d.store.nextTx).map Exchange.request) =
        (turn.exchanges d.store.nextTx, d') ∧
      d'.store.Alike (d.store.apply turn.batch) ∧
      d'.store.nextTx = turn.nextTx d.store.nextTx := by
  cases turn with
  | put k v => exact ⟨_, rfl, ⟨rfl, rfl, rfl⟩, rfl⟩
  | putAll b =>
      have hput : d.store.putAll b = d.store.apply b := if_neg hfits
      refine ⟨{ d with store := d.store.apply b }, ?_, ⟨rfl, rfl, rfl⟩, rfl⟩
      simp [Turn.exchanges, run, step, hput]
  | transaction calls =>
      obtain ⟨hcalls, hw⟩ := hfits
      let d₁ : Cache :=
        { store := { d.store with nextTx := d.store.nextTx + 1 }
          live := d.live.insert d.store.nextTx { id := d.store.nextTx } }
      have hbegin : d.run [.begin] = ([⟨.begin, .ok d.store.nextTx⟩], d₁) := by
        simp only [run, step_begin ht, d₁]
      have h₁ : d₁.Isolated d.store.nextTx { id := d.store.nextTx } := by
        refine ⟨by simp [d₁], ?_, ?_⟩
        · intro k v hk
          simp at hk
        · intro k r hr
          simp at hr
      obtain ⟨d₂, tx, hrun, h₂, hstore₂, hwrites⟩ := h₁.run_calls hc hi calls hcalls
      have hc₂ : d₂.store.settings.concurrency = .optimistic := by rwa [hstore₂]
      obtain ⟨d₃, hcommit, halike, hnext⟩ := h₂.run_commit hc₂ (hwrites ▸ hw)
      refine ⟨d₃, ?_, ?_, ?_⟩
      · have hrun := run_append_of hbegin (run_append_of hrun hcommit)
        simpa only [Turn.exchanges, List.map_cons, List.map_append, List.map_nil,
          List.singleton_append] using hrun
      · refine halike.trans ?_
        rw [hstore₂, hwrites]
        exact ⟨rfl, rfl, rfl⟩
      · rw [hnext, hstore₂]
        rfl

/-! ## The turns of a run -/

def turnAt (c : Cache) (rs : List Request) (n : Nat) : Option Turn :=
  (c.run rs).1[n]?.bind (Turn.ofExchange? ((c.run rs).1.take n))

/-- The turns of a run, each with the version that the store gives out for it. -/
def turns (c : Cache) (rs : List Request) : List (Version × Turn) :=
  (List.range rs.length).filterMap fun n =>
    (c.turnAt rs n).map fun turn => ((c.before rs n).store.nextVersion, turn)

variable {settings : Settings} {rs : List Request} {n : Nat} {r : Request}

theorem turnAt_eq (c : Cache) (hr : rs[n]? = some r) :
    c.turnAt rs n =
      Turn.ofExchange? ((c.run rs).1.take n) ⟨r, ((c.before rs n).step r).1⟩ := by
  rw [turnAt, getElem?_run, hr]
  rfl

theorem turnAt_of_none (c : Cache) (hr : rs[n]? = none) : c.turnAt rs n = none := by
  rw [turnAt, getElem?_run, hr]
  rfl

/-- The batches that a run applies are those of its turns, and each turn fits the store there. -/
theorem turnAt_spec (hw : ((ofSettings settings).batches rs).length < 2 ^ 64 - 1)
    (hc : settings.concurrency = .optimistic) (hi : settings.isolation = .serializable)
    (hr : rs[n]? = some r) :
    ((ofSettings settings).before rs n).batch? r =
        ((ofSettings settings).turnAt rs n).map Turn.batch ∧
      ∀ turn, (ofSettings settings).turnAt rs n = some turn →
        turn.Fits ((ofSettings settings).before rs n).store := by
  rw [turnAt_eq _ hr]
  cases r with
  | get _ | query _ | size | begin | txGet _ _ | txPut _ _ _ | rollback _ | drop _ =>
      exact ⟨rfl, fun _ h => by cases h⟩
  | put k v =>
      refine ⟨rfl, fun turn h => ?_⟩
      obtain rfl := Option.some.inj h
      trivial
  | putAll b =>
      by_cases hb : b.isEmpty
      · simp [batch?, step, Turn.ofExchange?, hb]
      · simp [batch?, step, Turn.ofExchange?, hb, Turn.batch, Turn.Fits]
  | commit t =>
      cases hl : ((ofSettings settings).before rs n).live[t]? with
      | none =>
          rw [step_of_not_live hl rfl, batch?_of_not_live hl rfl]
          exact ⟨rfl, fun _ h => by cases h⟩
      | some tx =>
          have hread : settings.isolation ≠ .readCommitted := by simp [hi]
          have hwrites := (faithful_before hread n tx hl).writes
          have hempty := Call.isEmpty_foldl_buffer ∅ ((ofSettings settings).calls rs t n)
          rw [← hwrites] at hempty
          rw [step_commit hl, batch?_commit hl]
          cases hok : (tx.commit ((ofSettings settings).before rs n).store).1 with
          | error e =>
              rw [Transaction.batch?_of_error hok]
              exact ⟨rfl, fun _ h => by cases h⟩
          | ok _ =>
              have hturn : Turn.ofExchange? (((ofSettings settings).run rs).1.take n)
                  ⟨.commit t, .ok ()⟩ =
                    if ((ofSettings settings).calls rs t n).any Call.isPut
                    then some (.transaction ((ofSettings settings).calls rs t n)) else none := rfl
              rw [hturn]
              by_cases hput : ((ofSettings settings).calls rs t n).any Call.isPut
              · have hw' : ¬ tx.writes.isEmpty := by simp [hempty, hput]
                rw [Transaction.batch?_of_ok hok hw', if_pos hput, hwrites]
                refine ⟨rfl, fun turn h => ?_⟩
                obtain rfl := Option.some.inj h
                exact ⟨consistent_of_commit hw hc hi hl hw' hok, hwrites ▸ hw'⟩
              · have hw' : tx.writes.isEmpty := by simp [hempty, hput]
                rw [Transaction.batch?_of_isEmpty hw', if_neg hput]
                exact ⟨rfl, fun _ h => by cases h⟩

theorem alike_step (c : Cache) (r : Request) :
    (c.step r).2.store.Alike (c.store.applied (c.batch? r)) := by
  obtain ⟨locks, nextTx, -, hs⟩ := c.step_store r
  rw [hs]
  exact ⟨rfl, rfl, rfl⟩

def turnsBefore (c : Cache) (rs : List Request) (n : Nat) : List Turn :=
  (List.range n).filterMap (c.turnAt rs)

theorem turnsBefore_succ (c : Cache) (rs : List Request) (n : Nat) :
    c.turnsBefore rs (n + 1) = c.turnsBefore rs n ++ (c.turnAt rs n).toList := by
  rw [turnsBefore, List.range_succ, List.filterMap_append, turnsBefore]
  cases h : c.turnAt rs n <;> simp [h]

/-- Up to any instant, the turns run alone as they say and leave the store as it is there. -/
theorem run_script (ht : settings.transactional)
    (hw : ((ofSettings settings).batches rs).length < 2 ^ 64 - 1)
    (hc : settings.concurrency = .optimistic) (hi : settings.isolation = .serializable) (n : Nat) :
    ∃ d, (ofSettings settings).run
          ((Turn.script 1 ((ofSettings settings).turnsBefore rs n)).map Exchange.request) =
        (Turn.script 1 ((ofSettings settings).turnsBefore rs n), d) ∧
      d.store.Alike ((ofSettings settings).before rs n).store ∧
      d.store.nextTx = ((ofSettings settings).turnsBefore rs n).foldl Turn.nextTx 1 := by
  induction n with
  | zero => exact ⟨ofSettings settings, rfl, ⟨rfl, rfl, rfl⟩, rfl⟩
  | succ n ih =>
      obtain ⟨d, hrun, halike, hnext⟩ := ih
      rw [turnsBefore_succ]
      cases hr : rs[n]? with
      | none =>
          rw [before_succ_of_none _ rs hr, turnAt_of_none _ hr, Option.toList_none, List.append_nil]
          exact ⟨d, hrun, halike, hnext⟩
      | some r =>
          rw [before_succ _ rs hr]
          have hstep := alike_step ((ofSettings settings).before rs n) r
          obtain ⟨hbatch, hfits⟩ := turnAt_spec hw hc hi hr
          rw [hbatch] at hstep
          cases hturn : (ofSettings settings).turnAt rs n with
          | none =>
              rw [hturn] at hstep
              rw [Option.toList_none, List.append_nil]
              exact ⟨d, hrun, halike.trans hstep.symm, hnext⟩
          | some turn =>
              rw [hturn] at hstep
              have hsettings : d.store.settings = settings :=
                halike.settings.trans (settings_before _ rs n)
              obtain ⟨d', hrun', halike', hnext'⟩ := run_turn (by rwa [hsettings])
                (by rwa [hsettings]) (by rwa [hsettings]) turn (halike.fits (hfits turn hturn))
              rw [Option.toList_some, Turn.script_concat, List.map_append, ← hnext]
              refine ⟨d', run_append_of hrun hrun', ?_, ?_⟩
              · exact halike'.trans ((halike.apply turn.batch).trans hstep.symm)
              · rw [hnext', List.foldl_append, ← hnext]
                rfl

/-- Turns come in the order of their versions. -/
theorem pairwise_versions (hw : ((ofSettings settings).batches rs).length < 2 ^ 64 - 1)
    (hc : settings.concurrency = .optimistic) (hi : settings.isolation = .serializable) :
    (((ofSettings settings).turns rs).map Prod.fst).Pairwise (· < ·) := by
  rw [turns, List.map_filterMap, List.pairwise_filterMap]
  refine List.pairwise_lt_range.imp ?_
  intro i j hij v hv v' hv'
  simp only [Option.map_eq_some_iff] at hv hv'
  obtain ⟨-, ⟨turn, hturn, rfl⟩, rfl⟩ := hv
  obtain ⟨-, ⟨turn', -, rfl⟩, rfl⟩ := hv'
  cases hr : rs[i]? with
  | none =>
      rw [turnAt_of_none _ hr] at hturn
      cases hturn
  | some r =>
      have hbatch := (turnAt_spec hw hc hi hr).1
      rw [hturn] at hbatch
      exact nextVersion_before_lt hw hij hr hbatch

theorem map_snd_turns (c : Cache) (rs : List Request) :
    (c.turns rs).map Prod.snd = c.turnsBefore rs rs.length := by
  rw [turns, turnsBefore, List.map_filterMap]
  congr 1
  funext n
  cases c.turnAt rs n <;> rfl

/-- Serializability of writers. The puts of a run and its transactions that were committed after at
least one put, taken alone in the order of their versions, get the same answers and leave the same
entries as in the run. -/
theorem writers_serializable (settings : Settings) (ht : settings.transactional)
    (hc : settings.concurrency = .optimistic) (hi : settings.isolation = .serializable)
    (rs : List Request) (hw : ((ofSettings settings).batches rs).length < 2 ^ 64 - 1) :
    let turns := (ofSettings settings).turns rs
    let script := Turn.script 1 (turns.map Prod.snd)
    (turns.map Prod.fst).Pairwise (· < ·) ∧
      ((ofSettings settings).run (script.map Exchange.request)).1 = script ∧
      ((ofSettings settings).run (script.map Exchange.request)).2.store.entries =
        ((ofSettings settings).run rs).2.store.entries := by
  intro turns script
  obtain ⟨d, hrun, halike, -⟩ := run_script ht hw hc hi rs.length
  rw [← map_snd_turns] at hrun
  refine ⟨pairwise_versions hw hc hi, congrArg Prod.fst hrun, ?_⟩
  rw [congrArg Prod.snd hrun, halike.entries, before, List.take_length]

/-- A put from outside and a second transaction come between the get and the commit of the first,
which reads its own put as well. -/
def interleaved : List Request :=
  [.begin, .txGet 1 1, .put 2 (.int 5), .begin, .txPut 2 3 (.int 6), .txPut 1 4 (.int 7),
    .commit 2, .txGet 1 4, .commit 1]

def serializableSettings : Settings :=
  { name := "transactional", transactional := true, isolation := .serializable }

theorem writers_serializable_interleaved :
    let c := ofSettings serializableSettings
    let script := Turn.script 1 ((c.turns interleaved).map Prod.snd)
    (c.batches interleaved).length < 2 ^ 64 - 1 ∧
      ((c.turns interleaved).map Prod.fst).Pairwise (· < ·) ∧
        (c.run (script.map Exchange.request)).1 = script ∧
          (c.run (script.map Exchange.request)).2.store.entries =
            (c.run interleaved).2.store.entries :=
  ⟨by decide, writers_serializable serializableSettings rfl rfl rfl interleaved (by decide)⟩

/-- The second transaction comes before the first. -/
example : ((ofSettings serializableSettings).turns interleaved).map Prod.snd =
    [.put 2 (.int 5), .transaction [.put 3 (.int 6)],
      .transaction [.get 1 none, .put 4 (.int 7), .get 4 (some (.int 7))]] := rfl

end Cache

end CacheBench
