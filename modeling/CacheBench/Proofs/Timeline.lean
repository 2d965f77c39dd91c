import CacheBench.Proofs.CacheStep

/-!
# Runs by their instants

Instant `i` of a run is the moment before request number `i`. `Cache.before` is the cache at an
instant, `Cache.Answers` tells what a request came back with, and `Cache.WritesAt` which keys it
wrote. What every request keeps holds at every instant, and an entry stays the same from one
instant to a later one unless its key is written in between.
-/

namespace CacheBench

namespace Cache

variable (c : Cache) (rs : List Request)

def before (i : Nat) : Cache := (c.run (rs.take i)).2

/-- Request number `i` of a run is `r` and comes back with `x`. -/
def Answers (i : Nat) (r : Request) (x : Except CacheError r.Answer) : Prop :=
  (c.run rs).1[i]? = some ⟨r, x⟩

/-- Request number `i` of a run applies a batch with the key `k`. -/
def WritesAt (i : Nat) (k : Key) : Prop :=
  ∃ r b, rs[i]? = some r ∧ (c.before rs i).batch? r = some b ∧ k ∈ b

@[simp] theorem before_zero : c.before rs 0 = c := rfl

theorem before_succ {i : Nat} {r : Request} (h : rs[i]? = some r) :
    c.before rs (i + 1) = ((c.before rs i).step r).2 := by
  have htake : rs.take (i + 1) = rs.take i ++ [r] := by rw [List.take_add_one, h]; rfl
  rw [before, htake, run_append]
  rfl

theorem before_succ_of_none {i : Nat} (h : rs[i]? = none) :
    c.before rs (i + 1) = c.before rs i := by
  have htake : rs.take (i + 1) = rs.take i := by rw [List.take_add_one, h]; exact List.append_nil _
  rw [before, htake, before]

theorem getElem?_run (i : Nat) :
    (c.run rs).1[i]? = rs[i]?.map fun r => ⟨r, ((c.before rs i).step r).1⟩ := by
  induction rs generalizing c i with
  | nil => rfl
  | cons r rs ih =>
      cases i with
      | zero => rfl
      | succ i => exact ih (c.step r).2 i

theorem answers_iff {i : Nat} {r : Request} {x : Except CacheError r.Answer} :
    c.Answers rs i r x ↔ rs[i]? = some r ∧ ((c.before rs i).step r).1 = x := by
  unfold Answers
  rw [getElem?_run, Option.map_eq_some_iff]
  constructor
  · rintro ⟨r', hr, he⟩
    cases he
    exact ⟨hr, rfl⟩
  · rintro ⟨hr, rfl⟩
    exact ⟨r, hr, rfl⟩

/-- What every request keeps holds at every instant. -/
theorem before_induction {P : Cache → Prop} (h₀ : P c)
    (hstep : ∀ c r, P c → P (c.step r).2) (i : Nat) : P (c.before rs i) := by
  induction i with
  | zero => exact h₀
  | succ i ih =>
      cases hr : rs[i]? with
      | none => rwa [before_succ_of_none c rs hr]
      | some r => rw [before_succ c rs hr]; exact hstep _ r ih

theorem before_length : c.before rs rs.length = (c.run rs).2 := by rw [before, List.take_length]

theorem run_induction {P : Cache → Prop} (h₀ : P c)
    (hstep : ∀ c r, P c → P (c.step r).2) : P (c.run rs).2 := by
  rw [← before_length]
  exact before_induction c rs h₀ hstep rs.length

/-- What each put keeps of the entries holds after a run. -/
theorem entries_run_induction {P : Entries → Prop} (h₀ : P c.store.entries)
    (hput : ∀ version e k v, P e → P (e.put c.store.settings.indexed version k v)) :
    P (c.run rs).2.store.entries := by
  have hrun := run_induction c rs
    (P := fun c' => c'.store.settings = c.store.settings ∧ P c'.store.entries) ⟨rfl, h₀⟩ ?_
  · exact hrun.2
  rintro c' r ⟨hs, h⟩
  refine ⟨(c'.settings_step r).trans hs, ?_⟩
  rw [entries_step]
  cases c'.batch? r with
  | none => exact h
  | some b =>
      simp only [Store.applied_some, Store.apply, hs]
      exact Entries.putAll_induction _ _ (hput _) h b

@[simp] theorem settings_before (i : Nat) :
    (c.before rs i).store.settings = c.store.settings :=
  before_induction c rs (P := fun c' => c'.store.settings = c.store.settings) rfl
    (fun c' r h => (c'.settings_step r).trans h) i

theorem numbered_before (h : c.Numbered) (i : Nat) : (c.before rs i).Numbered :=
  before_induction c rs h (fun _ r hc => hc.step r) i

theorem nextTx_before_mono {i j : Nat} (hij : i ≤ j) :
    (c.before rs i).store.nextTx ≤ (c.before rs j).store.nextTx := by
  induction j, hij using Nat.le_induction with
  | base => exact le_refl _
  | succ j _ ih =>
      cases hr : rs[j]? with
      | none => rwa [before_succ_of_none c rs hr]
      | some r =>
          rw [before_succ c rs hr]
          exact Nat.le_trans ih (nextTx_le_step _ r)

/-- Each request gives out one number at most. In runs of fewer than `2 ^ 64` requests a counter of
64 bits would therefore not wrap. -/
theorem nextTx_run_le : (c.run rs).2.store.nextTx ≤ c.store.nextTx + rs.length := by
  induction rs generalizing c with
  | nil => exact le_refl _
  | cons r rs ih =>
      calc (c.run (r :: rs)).2.store.nextTx
          ≤ (c.step r).2.store.nextTx + rs.length := ih (c.step r).2
        _ ≤ c.store.nextTx + 1 + rs.length := Nat.add_le_add_right (c.nextTx_step_le r) _
        _ = c.store.nextTx + (r :: rs).length := by
            rw [List.length_cons, Nat.add_assoc, Nat.add_comm 1]

/-- A key that is not written between two instants has one entry at both. -/
theorem latest_before_of_not_written {i j : Nat} {k : Key} (hij : i ≤ j)
    (hk : ∀ n, i ≤ n → n < j → ¬ c.WritesAt rs n k) :
    (c.before rs j).store.entries.latest[k]? = (c.before rs i).store.entries.latest[k]? := by
  induction j, hij using Nat.le_induction with
  | base => rfl
  | succ j hij ih =>
      have hprev := ih fun n hn hnj => hk n hn (by omega)
      cases hr : rs[j]? with
      | none => rw [before_succ_of_none c rs hr, hprev]
      | some r =>
          have hnot : ∀ b, (c.before rs j).batch? r = some b → k ∉ b := fun b hb hkb =>
            hk j hij (by omega) ⟨r, b, hr, hb, hkb⟩
          rw [before_succ c rs hr, latest_step_of_not_written _ r hnot, hprev]

/-! ## Open transactions over time -/

variable {c rs} {t : TxId} {i j : Nat}

/-- A request of a transaction that is answered at all is answered while it is open. -/
theorem live_of_answers {r : Request} {a : r.Answer} (hr : r.tx? = some t)
    (h : c.Answers rs i r (.ok a)) : ∃ tx, (c.before rs i).live[t]? = some tx := by
  obtain ⟨-, hx⟩ := (c.answers_iff rs).1 h
  by_contra hn
  have hl : (c.before rs i).live[t]? = none := by
    cases hl : (c.before rs i).live[t]? with
    | none => rfl
    | some tx => exact absurd ⟨tx, hl⟩ hn
  rw [step_of_not_live hl hr] at hx
  cases hx

/-- Nothing is answered under a number that is not given out yet. -/
theorem not_answers_of_not_begun {settings : Settings} {rs : List Request} {t : TxId} {i n : Nat}
    (ht : t = ((ofSettings settings).before rs n).store.nextTx) (hin : i ≤ n) {r : Request}
    (hr : r.tx? = some t) (a : r.Answer) : ¬ (ofSettings settings).Answers rs i r (.ok a) := by
  intro h
  obtain ⟨tx, hl⟩ := live_of_answers hr h
  have hlt := (numbered_before _ rs (numbered_ofSettings settings) i t tx hl).2
  have hle := nextTx_before_mono (ofSettings settings) rs hin
  exact absurd ht (Nat.ne_of_lt (Nat.lt_of_lt_of_le hlt hle))

theorem not_live_before_mono (hij : i ≤ j) (ht : t < (c.before rs i).store.nextTx)
    (hl : (c.before rs i).live[t]? = none) : (c.before rs j).live[t]? = none := by
  induction j, hij using Nat.le_induction with
  | base => exact hl
  | succ j hij ih =>
      cases hr : rs[j]? with
      | none => rwa [before_succ_of_none c rs hr]
      | some r =>
          rw [before_succ c rs hr]
          cases hl' : ((c.before rs j).step r).2.live[t]? with
          | none => rfl
          | some tx =>
              have hlt := Nat.lt_of_lt_of_le ht (c.nextTx_before_mono rs hij)
              rcases live_step_eq_some hl' with ⟨-, he, -⟩ | ⟨-, tx', hsome, -⟩ | ⟨-, hsome⟩
              · exact absurd he (Nat.ne_of_lt hlt)
              · rw [ih] at hsome
                cases hsome
              · rw [ih] at hsome
                cases hsome

theorem live_before_between {m : Nat} (hn : c.Numbered) (him : i ≤ m) (hmj : m ≤ j)
    {tx tx' : Transaction} (hl : (c.before rs i).live[t]? = some tx)
    (hl' : (c.before rs j).live[t]? = some tx') : ∃ tx₁, (c.before rs m).live[t]? = some tx₁ := by
  have hlt : t < (c.before rs m).store.nextTx :=
    Nat.lt_of_lt_of_le (c.numbered_before rs hn i t tx hl).2 (c.nextTx_before_mono rs him)
  apply Option.ne_none_iff_exists'.1
  intro hnone
  rw [not_live_before_mono hmj hlt hnone] at hl'
  cases hl'

/-- A transaction is open until a request ends it. -/
theorem live_before_of_not_ended (hn : c.Numbered) (hij : i ≤ j) {tx : Transaction}
    (hl : (c.before rs i).live[t]? = some tx)
    (hopen : ∀ m, i ≤ m → m < j → ∀ r, rs[m]? = some r → ¬ r.Ends t) :
    ∃ tx', (c.before rs j).live[t]? = some tx' := by
  induction j, hij using Nat.le_induction with
  | base => exact ⟨tx, hl⟩
  | succ j hij ih =>
      obtain ⟨tx', hl'⟩ := ih fun m him hmj => hopen m him (Nat.lt_succ_of_lt hmj)
      cases hr : rs[j]? with
      | none => exact ⟨tx', by rw [before_succ_of_none c rs hr, hl']⟩
      | some r =>
          rw [before_succ c rs hr]
          exact live_step_of_not_ends (c.numbered_before rs hn j) hl'
            (hopen j hij (Nat.lt_succ_self j) r hr)

/-- Induction along the life of a transaction: from its begin, over its own requests and over
those of others. -/
theorem live_induction {P : Nat → Transaction → Prop} (settings : Settings) (rs : List Request)
    (t : TxId)
    (hbegin : ∀ n, t = ((ofSettings settings).before rs n).store.nextTx →
      rs[n]? = some .begin → P (n + 1) { id := t })
    (hown : ∀ n r tx tx', ((ofSettings settings).before rs n).live[t]? = some tx →
      rs[n]? = some r → r.tx? = some t →
      tx.step? ((ofSettings settings).before rs n).store r = some tx' → P n tx → P (n + 1) tx')
    (hother : ∀ n tx, (∀ r, rs[n]? = some r → r.tx? ≠ some t) → P n tx → P (n + 1) tx)
    (n : Nat) (tx : Transaction) (hl : ((ofSettings settings).before rs n).live[t]? = some tx) :
    P n tx := by
  induction n generalizing tx with
  | zero => simp [ofSettings] at hl
  | succ n ih =>
      cases hr : rs[n]? with
      | none =>
          rw [before_succ_of_none _ rs hr] at hl
          refine hother n tx ?_ (ih tx hl)
          intro r hr'
          rw [hr] at hr'
          cases hr'
      | some r =>
          rw [before_succ _ rs hr] at hl
          rcases live_step_eq_some hl with ⟨rfl, ht, rfl⟩ | ⟨ht, tx₀, hl₀, hs⟩ | ⟨ht, hl₀⟩
          · exact hbegin n ht hr
          · exact hown n r tx₀ tx hl₀ hr ht hs (ih tx₀ hl₀)
          · refine hother n tx ?_ (ih tx hl₀)
            intro r' hr'
            obtain rfl : r = r' := Option.some.inj (hr.symm.trans hr')
            exact ht

end Cache

end CacheBench
