import CacheBench.Generator
import CacheBench.Proofs.AppliedBatch
import CacheBench.Workload
import Mathlib.Data.Set.Insert

/-!
# What the query workloads do

The tests of the query workloads and the workers of a population ask a cache for nothing but salary
queries and puts of the record of an index in range. `Program.KeepsTo` says so of a program, together
with how it ends and what it has stored by then.
-/

namespace CacheBench

/-! ## Draws -/

/-- The answers that a draw can have. -/
def Draw.Admits : (d : Draw) → d.Answer → Prop
  | .between low high, n => low < high → low ≤ n ∧ n < high
  | .unit, _ | .coin, _ => True

namespace Generator

theorem scaled_lt {width : Nat} (h : 0 < width) (fuel : Nat) (g : Generator) :
    (scaled width fuel g).1 < width := by
  induction fuel generalizing g with
  | zero => exact h
  | succ fuel ih =>
      rw [scaled]
      dsimp only
      split
      · have hword : g.word.1.toNat < 2 ^ 64 := g.word.1.toNat_lt
        exact Nat.div_lt_of_lt_mul (Nat.mul_lt_mul_of_pos_right hword h)
      · exact ih _

/-- A generator in any state draws from the interval that it was given. -/
theorem admits_draw (d : Draw) (g : Generator) : d.Admits (g.draw d).1 := by
  cases d with
  | unit | coin => trivial
  | between low high =>
      intro hlt
      have hwidth : 0 < high.toNat - low.toNat := Nat.sub_pos_of_lt (UInt64.lt_iff_toNat_lt.1 hlt)
      have hdraw : (g.draw (.between low high)).1 =
          low + .ofNat (scaled (high.toNat - low.toNat) period g).1 := by
        simp [draw, between?, hlt]
      have hn := scaled_lt hwidth period g
      rw [hdraw]
      generalize (scaled (high.toNat - low.toNat) period g).1 = n at hn
      have hhigh := high.toNat_lt
      have hsum : (low + UInt64.ofNat n).toNat = low.toNat + n := by
        rw [UInt64.toNat_add, UInt64.toNat_ofNat']
        omega
      rw [UInt64.le_iff_toNat_le, UInt64.lt_iff_toNat_lt, hsum]
      omega

end Generator

/-! ## Programs -/

namespace Program

variable {α β : Type} {range : Key}

/-- Whatever the cache and the draws answer, the program makes queries and stores records of indexes
below `range` only. It started when it had stored the keys `stored`, and what it ends with is right
for the keys that it has stored then. -/
def KeepsTo (range : Key) (post : Set Key → α → Prop) : Program α → Set Key → Prop
  | .done a, stored => post stored a
  | .ask (.query p) next, stored =>
    ∀ c : Cache, KeepsTo range post (next (.ok (c.store.query p))) stored
  | .ask (.put k v) next, stored =>
    k < range ∧ v = .record (.forIndex k) ∧ KeepsTo range post (next (.ok ())) (insert k stored)
  | .ask _ _, _ => False
  | .draw d next, stored => ∀ x, d.Admits x → KeepsTo range post (next x) stored

theorem KeepsTo.mono {post post' : Set Key → α → Prop} {p : Program α} {stored : Set Key}
    (hpost : ∀ stored a, post stored a → post' stored a) (h : p.KeepsTo range post stored) :
    p.KeepsTo range post' stored := by
  induction p generalizing stored with
  | done a => exact hpost stored a h
  | draw d next ih => exact fun x hx => ih x (h x hx)
  | ask r next ih =>
      cases r with
      | query p => exact fun c => ih _ (h c)
      | put k v => exact ⟨h.1, h.2.1, ih _ h.2.2⟩
      | get | putAll | size | begin | txGet | txPut | commit | rollback | drop => exact h

theorem KeepsTo.bind {post : Set Key → β → Prop} {p : Program α} {f : α → Program β}
    {stored : Set Key}
    (h : p.KeepsTo range (fun stored a => (f a).KeepsTo range post stored) stored) :
    (p.bind f).KeepsTo range post stored := by
  induction p generalizing stored with
  | done a => exact h
  | draw d next ih => exact fun x hx => ih x (h x hx)
  | ask r next ih =>
      cases r with
      | query p => exact fun c => ih _ (h c)
      | put k v => exact ⟨h.1, h.2.1, ih _ h.2.2⟩
      | get | putAll | size | begin | txGet | txPut | commit | rollback | drop => exact h

end Program

namespace Work

open Program (KeepsTo)

variable {α β : Type} {range : Key} {stored : Set Key}

theorem keepsTo_bind {post : Set Key → Except (Fault WorkError) β → Prop} {w : Work α}
    {f : α → Work β} (h : w.run.KeepsTo range
      (fun stored x => KeepsTo range post (ExceptT.bindCont f x) stored) stored) :
    (w >>= f).run.KeepsTo range post stored := KeepsTo.bind h

section Requests

variable {post : Set Key → Except (Fault WorkError) α → Prop}

theorem keepsTo_pure {a : α} (h : post stored (.ok a)) :
    (pure a : Work α).run.KeepsTo range post stored := h

theorem keepsTo_put {post : Set Key → Except (Fault WorkError) Unit → Prop} {k : Key}
    (hk : k < range) (h : post (insert k stored) (.ok ())) :
    (ask (.put k (.record (.forIndex k)))).run.KeepsTo range post stored := ⟨hk, rfl, h⟩

theorem keepsTo_between {post : Set Key → Except (Fault WorkError) UInt64 → Prop}
    {low high : UInt64} (hlt : low < high) (h : ∀ n, n < high → post stored (.ok n)) :
    (between low high).run.KeepsTo range post stored := by
  rw [between, if_pos hlt]
  exact fun n hn => h n (hn hlt).2

theorem keepsTo_windowStart {post : Set Key → Except (Fault WorkError) Binary64 → Prop}
    (width : UInt64) (h : ∀ min, post stored (.ok min)) :
    (windowStart width).run.KeepsTo range post stored := fun _ _ => h _

end Requests

/-- The check of an answer asks of a record just what the query asked of it. -/
theorem find?_eq_none_of_query (s : Store) (min max : Binary64) :
    ((s.query (.salary min max)).find? fun r => !(min.le r.salary && r.salary.lt max)) = none := by
  refine List.find?_eq_none.2 fun r hr => ?_
  have hholds : (Predicate.salary min max).holds r := by
    rw [Store.query, Entries.query] at hr
    split at hr
    · rw [Entries.indexQuery] at hr
      split at hr
      · cases hr
      · exact (List.mem_filter.1 hr).2
    · exact (List.mem_filter.1 (List.mem_mergeSort.1 hr)).2
  simpa [Predicate.holds, Predicate.salary, Field.value] using hholds

theorem keepsTo_queryAndVerify {post : Set Key → Except (Fault WorkError) (List Record) → Prop}
    (min : Binary64) (h : ∀ records, post stored (.ok records)) :
    (queryAndVerify min).run.KeepsTo range post stored := by
  refine keepsTo_bind fun c => ?_
  change KeepsTo range post (ExceptT.bindCont _ (.ok _)) stored
  simp only [ExceptT.bindCont, find?_eq_none_of_query]
  exact h _

end Work

/-- A worker of a population stores all of its indexes, unless the next one is too large to be
counted up to. -/
theorem keepsTo_populateFrom {range : Key} (stride i : Nat) (stored : Set Key) :
    (populateFrom range.toNat stride i).run.KeepsTo range (fun stored' result =>
      stored ⊆ stored' ∧ (range.toNat + stride ≤ 2 ^ 64 → result = .ok ()) ∧
        (0 < stride → result = .ok () →
          ∀ j, i + j * stride < range.toNat → .ofNat (i + j * stride) ∈ stored')) stored := by
  induction h : range.toNat - i using Nat.strong_induction_on generalizing i stored with
  | _ left ih =>
      rw [populateFrom]
      split
      · rename_i hi
        obtain ⟨hstride, hi⟩ := hi
        have hindex : UInt64.ofNat i < range := by
          rw [UInt64.lt_iff_toNat_lt, UInt64.toNat_ofNat']
          exact (Nat.mod_le _ _).trans_lt hi
        refine Work.keepsTo_bind (Work.keepsTo_put hindex ?_)
        change Program.KeepsTo range _ (ExceptT.run (if _ then _ else _)) _
        split
        · refine (ih _ (by omega) (i + stride) (insert (.ofNat i) stored) rfl).mono ?_
          rintro stored' result ⟨hsub, hok, hall⟩
          refine ⟨(Set.subset_insert _ _).trans hsub, hok, fun hstride hresult j hj => ?_⟩
          cases j with
          | zero =>
              rw [Nat.zero_mul, Nat.add_zero]
              exact hsub (Set.mem_insert _ _)
          | succ j =>
              have hnext : i + (j + 1) * stride = i + stride + j * stride := by
                rw [Nat.succ_mul]
                omega
              rw [hnext] at hj ⊢
              exact hall hstride hresult j hj
        · exact ⟨Set.subset_insert _ _, fun hle => by omega, nofun⟩
      · rename_i hi
        refine Work.keepsTo_pure ⟨subset_rfl, fun _ => rfl, fun hstride _ j hj => ?_⟩
        omega

/-! ## Tasks -/

/-- A piece of work on a cache of records: a test of a query workload, or what one of the workers of
a population does. -/
inductive QueryTask
  | rangeQuery
  | rangeQueryPut
  | populate (worker workers : Nat)

namespace QueryTask

def work (config : Config) : QueryTask → Work Outcome
  | .rangeQuery => Workload.rangeQuery.test config
  | .rangeQueryPut => Workload.rangeQueryPut.test config
  | .populate worker workers => do
    populateFrom config.range.toNat workers worker
    return .completed

/-- What is right for a task to end with once it has stored the keys `stored`. -/
def Ends (range : Key) (stored : Set Key) (result : Except (Fault WorkError) Outcome) :
    QueryTask → Prop
  | .rangeQuery | .rangeQueryPut => result = .ok .completed
  | .populate worker workers =>
    (range.toNat + workers ≤ 2 ^ 64 → result = .ok .completed) ∧
      (0 < workers → result = .ok .completed →
        ∀ j, worker + j * workers < range.toNat → .ofNat (worker + j * workers) ∈ stored)

theorem keepsTo_work {config : Config} (hrange : 0 < config.range) (t : QueryTask)
    (stored : Set Key) : (t.work config).run.KeepsTo config.range
      (fun stored result => t.Ends config.range stored result) stored := by
  cases t with
  | rangeQuery =>
      refine Work.keepsTo_bind (Work.keepsTo_windowStart _ fun min => ?_)
      exact Work.keepsTo_bind (Work.keepsTo_queryAndVerify min fun _ => rfl)
  | rangeQueryPut =>
      refine Work.keepsTo_bind fun heads _ => ?_
      cases heads with
      | true =>
          refine Work.keepsTo_bind (Work.keepsTo_windowStart _ fun min => ?_)
          exact Work.keepsTo_bind (Work.keepsTo_queryAndVerify min fun _ => rfl)
      | false =>
          refine Work.keepsTo_bind (Work.keepsTo_between hrange fun i hi => ?_)
          exact Work.keepsTo_bind (Work.keepsTo_put hi rfl)
  | populate worker workers =>
      refine Work.keepsTo_bind ((keepsTo_populateFrom workers worker stored).mono ?_)
      rintro stored' (e | ⟨⟩) ⟨-, hok, hall⟩
      · refine ⟨fun hle => ?_, nofun⟩
        cases hok hle
      · exact ⟨fun _ => rfl, fun hworkers _ => hall hworkers rfl⟩

end QueryTask

end CacheBench
