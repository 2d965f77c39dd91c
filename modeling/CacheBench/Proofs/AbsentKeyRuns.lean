import CacheBench.Proofs.CrewRuns
import CacheBench.Proofs.Locking

/-!
# Calls that write an absent key

Each worker of a crew makes one call of `Work.writeAbsent` on an optimistic cache. Between the steps
of the workers every call stands at one of five stages: it has asked for nothing, has begun a
transaction, has read its key, has put the key that it writes, or has asked for the commit.
`AtStage` says what its transaction is then, and `AtStages` that all calls are at such stages in
transactions of their own.
-/

namespace CacheBench

open Std (TreeMap)

namespace Work

variable {α : Type} {xs : List (Exchange (Fault CacheError))} {t : TxId}

/-- A transaction is ended by the last request of its work, and by a commit if its body succeeds. -/
theorem runs_inTransaction {body : TxId → Work α} {x : Except (Fault WorkError) α}
    (h : (inTransaction body).Runs xs x) :
    (∃ e, xs = [⟨.begin, .error e⟩] ∧ x = .error (e.map .cache)) ∨
      ∃ t ys y z, xs = ⟨.begin, .ok t⟩ :: (ys ++ [z]) ∧ (body t).Runs ys y ∧
        ((∃ e, y = .error e ∧ z.request.Ends t) ∨ ∃ a u, y = .ok a ∧ z = ⟨.commit t, u⟩ ∧
          x = (u.map fun _ => a).mapError (Fault.map .cache)) := by
  rw [inTransaction, runs_ask_bind_iff] at h
  rcases h with ⟨e, rfl, rfl⟩ | ⟨t, us, rfl, h⟩
  · exact .inl ⟨e, rfl, rfl⟩
  rw [runs_attempt_bind_iff] at h
  obtain ⟨ys, zs, y, rfl, hy, h⟩ := h
  rcases y with (e | text) | a
  · obtain ⟨_, us, _, rfl, hz, h⟩ := runs_attempt_bind_iff.1 h
    obtain ⟨z, rfl, rfl⟩ := runs_ask_iff.1 hz
    have hus : us = [] := by
      rcases z with (e' | text) | ⟨⟩
      · exact h.1
      · exact h.1
      · exact h.1
    cases hus
    exact .inr ⟨t, ys, _, _, rfl, hy, .inl ⟨_, rfl, .inr (.inl rfl)⟩⟩
  · rw [runs_ask_bind_iff] at h
    rcases h with ⟨e, rfl, -⟩ | ⟨_, _, rfl, rfl, -⟩
    · exact .inr ⟨t, ys, _, _, rfl, hy, .inl ⟨_, rfl, .inr (.inr rfl)⟩⟩
    · exact .inr ⟨t, ys, _, _, rfl, hy, .inl ⟨_, rfl, .inr (.inr rfl)⟩⟩
  · rw [runs_ask_bind_iff] at h
    rcases h with ⟨e, rfl, rfl⟩ | ⟨_, _, rfl, rfl, rfl⟩
    · exact .inr ⟨t, ys, _, _, rfl, hy, .inr ⟨a, .error e, rfl, rfl, rfl⟩⟩
    · exact .inr ⟨t, ys, _, _, rfl, hy, .inr ⟨a, .ok (), rfl, rfl, rfl⟩⟩

end Work

/-- The key that a call writes that has found this at the key `k` of the lower half. -/
def Chosen (range k : Key) (found : Option Value) (k' : Key) : Prop :=
  k < range / 2 ∧ ((found = none ∧ k' = k) ∨ (found ≠ none ∧ range / 2 ≤ k' ∧ k' < range))

/-- A whole call of `Work.writeAbsent`, with what failed in it if anything did. -/
inductive AbsentRun (range : Key) :
    List (Exchange (Fault CacheError)) → Except (Fault WorkError) Key → Prop
  | unbegun (e) : AbsentRun range [⟨.begin, .error e⟩] (.error (e.map .cache))
  | unread {t k z} (e) (hk : k < range / 2) (hz : z.request.Ends t) (x) :
    AbsentRun range [⟨.begin, .ok t⟩, ⟨.txGet t k, .error e⟩, z] x
  | unwritten {t k found k' z} (e) (hk : Chosen range k found k') (hz : z.request.Ends t) (x) :
    AbsentRun range [⟨.begin, .ok t⟩, ⟨.txGet t k, .ok found⟩,
      ⟨.txPut t k' (.sample k'), .error e⟩, z] x
  | written {t k found k'} (hk : Chosen range k found k') (y) :
    AbsentRun range [⟨.begin, .ok t⟩, ⟨.txGet t k, .ok found⟩,
      ⟨.txPut t k' (.sample k'), .ok ()⟩, ⟨.commit t, y⟩]
      ((y.map fun _ => k').mapError (Fault.map .cache))

theorem absentRun_of_runs {range : Key} (hrange : 2 ≤ range.toNat)
    {xs : List (Exchange (Fault CacheError))} {x : Except (Fault WorkError) Key}
    (h : (Work.writeAbsent range).Runs xs x) : AbsentRun range xs x := by
  obtain ⟨hlow, hhigh⟩ := Work.halves_of_two_le hrange
  rcases Work.runs_inTransaction h with ⟨e, rfl, rfl⟩ | ⟨t, ys, y, z, rfl, hbody, hlast⟩
  · exact .unbegun e
  replace hbody := (Work.runs_between_bind_iff hlow).1 hbody
  obtain ⟨k, -, hk, hbody⟩ := hbody
  rw [Work.runs_ask_bind_iff] at hbody
  rcases hbody with ⟨e, rfl, rfl⟩ | ⟨found, us, rfl, hbody⟩
  · rcases hlast with ⟨_, -, hz⟩ | ⟨_, _, hy, -⟩
    · exact .unread e hk hz x
    · cases hy
  have hput : ∃ k', Chosen range k found k' ∧
      Work.Runs (do Work.ask (.txPut t k' (.sample k')); return k') us y := by
    cases found with
    | none => exact ⟨k, ⟨hk, .inl ⟨rfl, rfl⟩⟩, hbody⟩
    | some v =>
        obtain ⟨k', hle, hlt, hbody⟩ := (Work.runs_between_bind_iff hhigh).1 hbody
        exact ⟨k', ⟨hk, .inr ⟨nofun, hle, hlt⟩⟩, hbody⟩
  obtain ⟨k', hchosen, hput⟩ := hput
  rw [Work.runs_ask_bind_iff] at hput
  rcases hput with ⟨e, rfl, rfl⟩ | ⟨⟨⟩, _, rfl, rfl, rfl⟩
  · rcases hlast with ⟨_, -, hz⟩ | ⟨_, _, hy, -⟩
    · exact .unwritten e hchosen hz x
    · cases hy
  · rcases hlast with ⟨_, hy, -⟩ | ⟨_, u, hy, rfl, rfl⟩
    · cases hy
    · cases hy
      exact .written hchosen u

namespace AbsentRun

variable {range k k' : Key} {t : TxId} {found : Option Value} {x : Exchange (Fault CacheError)}
  {rest : List (Exchange (Fault CacheError))} {a : Except (Fault WorkError) Key}

theorem begins (h : AbsentRun range (x :: rest) a) : x.request = .begin := by
  cases h <;> rfl

theorem gets (h : AbsentRun range (⟨.begin, .ok t⟩ :: x :: rest) a) :
    ∃ k, k < range / 2 ∧ x.request = .txGet t k := by
  cases h with
  | unread e hk hz x => exact ⟨_, hk, rfl⟩
  | unwritten e hk hz x => exact ⟨_, hk.1, rfl⟩
  | written hk y => exact ⟨_, hk.1, rfl⟩

theorem puts (h : AbsentRun range (⟨.begin, .ok t⟩ :: ⟨.txGet t k, .ok found⟩ :: x :: rest) a) :
    ∃ k', Chosen range k found k' ∧ x.request = .txPut t k' (.sample k') := by
  cases h with
  | unwritten e hk hz x => exact ⟨_, hk, rfl⟩
  | written hk y => exact ⟨_, hk, rfl⟩

theorem commits {v : Value} (h : AbsentRun range (⟨.begin, .ok t⟩ :: ⟨.txGet t k, .ok found⟩ ::
    ⟨.txPut t k' v, .ok ()⟩ :: x :: rest) a) : x.request = .commit t := by
  cases h with
  | written hk y => rfl

theorem ends {v : Value} {y : Except (Fault CacheError) Unit}
    (h : AbsentRun range (⟨.begin, .ok t⟩ :: ⟨.txGet t k, .ok found⟩ ::
      ⟨.txPut t k' v, .ok ()⟩ :: ⟨.commit t, y⟩ :: x :: rest) a) : False := by
  cases h

end AbsentRun

/-! ## The stages of a call -/

abbrev cacheAt (settings : Settings) (xs : List (Nat × Exchange (Fault CacheError))) (i : Nat) :
    Cache := (Cache.ofSettings settings).before (Crew.requests xs) i

theorem cacheAt_succ (settings : Settings) {xs : List (Nat × Exchange (Fault CacheError))}
    {n w : Nat} {x : Exchange (Fault CacheError)} (hx : xs[n]? = some (w, x)) :
    cacheAt settings xs (n + 1) = ((cacheAt settings xs n).step x.request).2 :=
  Cache.before_succ _ _ (Crew.getElem?_requests hx)

/-- The log of a crew of such calls on a cache. -/
structure AbsentLog (settings : Settings) (range : Key)
    (xs : List (Nat × Exchange (Fault CacheError))) : Prop where
  answered : ∀ {i w x}, xs[i]? = some (w, x) → x = Crew.seen ⟨x.request,
    ((cacheAt settings xs i).step x.request).1⟩
  follows : ∀ {w x}, (w, x) ∈ xs → ∃ ys a, AbsentRun range (Crew.own w xs ++ ys) a

def reader (s : Store) (t : TxId) (k : Key) : Transaction := ({ id := t } : Transaction).observe s k

theorem remembered?_fresh (s : Store) (t : TxId) (k : Key) :
    ({ id := t } : Transaction).remembered? s k = none := by simp [Transaction.remembered?]

def writer (s : Store) (t : TxId) (k k' : Key) : Transaction :=
  { reader s t k with writes := (∅ : Batch).insert k' (.sample k') }

structure ReadAt (settings : Settings) (xs : List (Nat × Exchange (Fault CacheError))) (w : Nat)
    (t : TxId) (k : Key) (found : Option Value) (j : Nat) : Prop where
  entry : xs[j]? = some (w, ⟨.txGet t k, .ok found⟩)
  value : (cacheAt settings xs j).store.get k = found

/-- The call of a worker at instant `n`, with what it has asked by then. -/
inductive AtStage (settings : Settings) (range : Key) (xs : List (Nat × Exchange (Fault CacheError)))
    (w n : Nat) : List (Exchange (Fault CacheError)) → Prop
  | idle : AtStage settings range xs w n []
  | begun {t} (hl : (cacheAt settings xs n).live[t]? = some { id := t }) :
    AtStage settings range xs w n [⟨.begin, .ok t⟩]
  | read {t k found j} (hk : k < range / 2) (hj : j < n) (hread : ReadAt settings xs w t k found j)
    (hl : (cacheAt settings xs n).live[t]? = some (reader (cacheAt settings xs j).store t k)) :
    AtStage settings range xs w n [⟨.begin, .ok t⟩, ⟨.txGet t k, .ok found⟩]
  | put {t k found k' j} (hk : Chosen range k found k') (hj : j < n)
    (hread : ReadAt settings xs w t k found j)
    (hl : (cacheAt settings xs n).live[t]? = some (writer (cacheAt settings xs j).store t k k')) :
    AtStage settings range xs w n [⟨.begin, .ok t⟩, ⟨.txGet t k, .ok found⟩,
      ⟨.txPut t k' (.sample k'), .ok ()⟩]
  | ended {t k found k'} (hk : Chosen range k found k') (y : Except (Fault CacheError) Unit) :
    AtStage settings range xs w n [⟨.begin, .ok t⟩, ⟨.txGet t k, .ok found⟩,
      ⟨.txPut t k' (.sample k'), .ok ()⟩, ⟨.commit t, y⟩]

namespace AtStage

variable {settings : Settings} {range : Key} {xs : List (Nat × Exchange (Fault CacheError))}
  {w n : Nat} {o : List (Exchange (Fault CacheError))}

/-- A call stays at its stage while its transaction is left alone. -/
theorem keep (h : AtStage settings range xs w n o) (hlive : ∀ t, ⟨.begin, .ok t⟩ ∈ o →
    (cacheAt settings xs (n + 1)).live[t]? = (cacheAt settings xs n).live[t]?) :
    AtStage settings range xs w (n + 1) o := by
  cases h with
  | idle => exact .idle
  | begun hl => exact .begun ((hlive _ List.mem_cons_self).trans hl)
  | read hk hj hread hl =>
      exact .read hk (Nat.lt_succ_of_lt hj) hread ((hlive _ List.mem_cons_self).trans hl)
  | put hk hj hread hl =>
      exact .put hk (Nat.lt_succ_of_lt hj) hread ((hlive _ List.mem_cons_self).trans hl)
  | ended hk y => exact .ended hk y

variable {x : Exchange (Fault CacheError)} {rest : List (Exchange (Fault CacheError))}
  {a : Except (Fault WorkError) Key}

/-- The next request of a call takes it to its next stage. It begins a transaction, or belongs to
the one that the call has begun. -/
theorem next (hxs : AbsentLog settings range xs) (ht : settings.transactional)
    (hc : settings.concurrency = .optimistic) (h : AtStage settings range xs w n o)
    (hx : xs[n]? = some (w, x)) (hrun : AbsentRun range (o ++ x :: rest) a) :
    AtStage settings range xs w (n + 1) (o ++ [x]) ∧
      (x = ⟨.begin, .ok (cacheAt settings xs n).store.nextTx⟩ ∨
        ∃ t, x.request.tx? = some t ∧ ⟨.begin, .ok t⟩ ∈ o) := by
  have hanswer := hxs.answered hx
  have hnext := cacheAt_succ settings hx
  have ht' : (cacheAt settings xs n).store.settings.transactional := by
    rwa [Cache.settings_before]
  have hc' : (cacheAt settings xs n).store.settings.concurrency = .optimistic := by
    rwa [Cache.settings_before]
  cases h with
  | idle =>
      rw [hrun.begins, Cache.step_begin ht'] at hanswer hnext
      subst hanswer
      refine ⟨.begun ?_, .inl rfl⟩
      rw [hnext]
      exact TreeMap.getElem?_insert_self
  | @begun t hl =>
      obtain ⟨k, hk, hreq⟩ := hrun.gets
      have hget := Transaction.get_of_not_remembered
        (remembered?_fresh (cacheAt settings xs n).store t k)
      rw [hreq, Cache.step_txGet hl, hget] at hanswer hnext
      subst hanswer
      refine ⟨.read hk (Nat.lt_succ_self n) ⟨hx, rfl⟩ ?_, .inr ⟨t, rfl, List.mem_cons_self⟩⟩
      rw [hnext]
      exact TreeMap.getElem?_insert_self
  | @read t k found j hk hj hread hl =>
      obtain ⟨k', hchosen, hreq⟩ := hrun.puts
      have hput : (reader (cacheAt settings xs j).store t k).put (cacheAt settings xs n).store k'
          (.sample k') = .ok ((cacheAt settings xs n).store,
            writer (cacheAt settings xs j).store t k k') := by
        refine Transaction.put_eq_ok_iff.2 (.inr ⟨fun hlock => ?_, rfl, rfl⟩)
        cases hc'.symm.trans hlock.1
      rw [hreq, Cache.step_txPut_of_ok hl hput] at hanswer hnext
      subst hanswer
      refine ⟨.put hchosen (Nat.lt_succ_of_lt hj) hread ?_, .inr ⟨t, rfl, List.mem_cons_self⟩⟩
      rw [hnext]
      exact TreeMap.getElem?_insert_self
  | @put t k found k' j hk hj hread hl =>
      rw [hrun.commits] at hanswer
      subst hanswer
      exact ⟨.ended hk _, .inr ⟨t, rfl, List.mem_cons_self⟩⟩
  | ended hk y => exact hrun.ends.elim

end AtStage

/-- All calls are at their stages, in transactions of their own. -/
structure AtStages (settings : Settings) (range : Key) (xs : List (Nat × Exchange (Fault CacheError)))
    (n : Nat) : Prop where
  stage : ∀ w, AtStage settings range xs w n (Crew.own w (xs.take n))
  begun : ∀ {w t}, ⟨.begin, .ok t⟩ ∈ Crew.own w (xs.take n) →
    t < (cacheAt settings xs n).store.nextTx
  apart : ∀ {w w' t}, ⟨.begin, .ok t⟩ ∈ Crew.own w (xs.take n) →
    ⟨.begin, .ok t⟩ ∈ Crew.own w' (xs.take n) → w = w'

namespace Crew

theorem own_take_succ {xs : List (Nat × Exchange (Fault CacheError))} {n w : Nat}
    {x : Exchange (Fault CacheError)} (hx : xs[n]? = some (w, x)) :
    own w (xs.take (n + 1)) = own w (xs.take n) ++ [x] := by
  rw [List.take_add_one, hx, own_append]
  simp [own]

theorem own_take_succ_of_ne {xs : List (Nat × Exchange (Fault CacheError))} {n w w' : Nat}
    {x : Exchange (Fault CacheError)} (hx : xs[n]? = some (w, x)) (hw : w' ≠ w) :
    own w' (xs.take (n + 1)) = own w' (xs.take n) := by
  rw [List.take_add_one, hx, own_append]
  simp [own, hw.symm]

theorem own_eq_take_append {xs : List (Nat × Exchange (Fault CacheError))} {n w : Nat}
    {x : Exchange (Fault CacheError)} (hx : xs[n]? = some (w, x)) :
    own w xs = own w (xs.take n) ++ x :: own w (xs.drop (n + 1)) := by
  conv_lhs => rw [← List.take_append_drop (n + 1) xs, own_append, own_take_succ hx]
  simp

end Crew

namespace AtStages

variable {settings : Settings} {range : Key} {xs : List (Nat × Exchange (Fault CacheError))} {n : Nat}

theorem step (hxs : AbsentLog settings range xs) (ht : settings.transactional)
    (hc : settings.concurrency = .optimistic) (h : AtStages settings range xs n) :
    AtStages settings range xs (n + 1) := by
  cases hx : xs[n]? with
  | none =>
      have htake : xs.take (n + 1) = xs.take n := by
        rw [List.take_add_one, hx]
        exact List.append_nil _
      have hr : (Crew.requests xs)[n]? = none := by
        rw [Crew.requests, List.getElem?_map, hx]
        rfl
      have hsame : cacheAt settings xs (n + 1) = cacheAt settings xs n :=
        Cache.before_succ_of_none _ _ hr
      refine ⟨fun w => ?_, fun hw => ?_, fun hw hw' => ?_⟩
      · rw [htake]
        exact (h.stage w).keep fun t _ => by rw [hsame]
      · rw [htake] at hw
        rw [hsame]
        exact h.begun hw
      · rw [htake] at hw hw'
        exact h.apart hw hw'
  | some p =>
      obtain ⟨w, x⟩ := p
      obtain ⟨ys, a, hrun⟩ := hxs.follows (List.mem_of_getElem? hx)
      rw [Crew.own_eq_take_append hx, List.append_assoc, List.cons_append] at hrun
      obtain ⟨hstage, hreq⟩ := (h.stage w).next hxs ht hc hx hrun
      have hnext := cacheAt_succ settings hx
      have hmono : (cacheAt settings xs n).store.nextTx ≤ (cacheAt settings xs (n + 1)).store.nextTx :=
        Cache.nextTx_before_mono _ _ (Nat.le_succ n)
      -- a transaction was begun before, or is begun now under a number of its own
      have hcases : ∀ {w' t}, ⟨.begin, .ok t⟩ ∈ Crew.own w' (xs.take (n + 1)) →
          ⟨.begin, .ok t⟩ ∈ Crew.own w' (xs.take n) ∨
            w' = w ∧ x = ⟨.begin, .ok t⟩ ∧ t = (cacheAt settings xs n).store.nextTx := by
        intro w' t hmem
        by_cases hw : w' = w
        · subst w'
          rw [Crew.own_take_succ hx] at hmem
          rcases List.mem_append.1 hmem with hmem | hmem
          · exact .inl hmem
          · cases List.mem_singleton.1 hmem
            rcases hreq with heq | ⟨t', htx, -⟩
            · cases heq
              exact .inr ⟨rfl, rfl, rfl⟩
            · cases htx
        · rw [Crew.own_take_succ_of_ne hx hw] at hmem
          exact .inl hmem
      refine ⟨fun w' => ?_, fun {w' t} hw' => ?_, fun {w₁ w₂ t} hw₁ hw₂ => ?_⟩
      · by_cases hw : w' = w
        · subst w'
          rwa [Crew.own_take_succ hx]
        · rw [Crew.own_take_succ_of_ne hx hw]
          refine (h.stage w').keep fun t hmem => ?_
          rw [hnext]
          refine Cache.live_step_of_other (fun htx => ?_) fun _ => Nat.ne_of_lt (h.begun hmem)
          rcases hreq with rfl | ⟨t', htx', hmem'⟩
          · cases htx
          · cases htx.symm.trans htx'
            exact hw (h.apart hmem hmem')
      · rcases hcases hw' with hold | ⟨rfl, rfl, rfl⟩
        · exact Nat.lt_of_lt_of_le (h.begun hold) hmono
        · have ht' : (cacheAt settings xs n).store.settings.transactional := by
            rwa [Cache.settings_before]
          rw [hnext, Cache.step_begin ht']
          exact Nat.lt_succ_self _
      · rcases hcases hw₁ with hold₁ | ⟨rfl, -, rfl⟩
        · rcases hcases hw₂ with hold₂ | ⟨-, -, rfl⟩
          · exact h.apart hold₁ hold₂
          · exact (Nat.lt_irrefl _ (h.begun hold₁)).elim
        · rcases hcases hw₂ with hold₂ | ⟨rfl, -, -⟩
          · exact (Nat.lt_irrefl _ (h.begun hold₂)).elim
          · rfl

theorem run (hxs : AbsentLog settings range xs) (ht : settings.transactional)
    (hc : settings.concurrency = .optimistic) (n : Nat) : AtStages settings range xs n := by
  induction n with
  | zero => exact ⟨fun w => .idle, nofun, nofun⟩
  | succ n ih => exact ih.step hxs ht hc

end AtStages

end CacheBench
