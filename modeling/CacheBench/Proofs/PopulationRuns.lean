import CacheBench.Proofs.FailureReport
import CacheBench.Proofs.PopulationShares
import CacheBench.Proofs.QueryData

/-!
# Populations under any schedule

The workers of a population ask for the puts of their shares, each up to its first failure, in any
order among each other. No key is asked for twice, a population without failures stores every key
once, and one with failures tells how many workers failed and the first of them. All of this is
told by which puts succeed, whatever the order.
-/

namespace CacheBench

namespace Population

variable {σ : Type}

section Definitions

variable (env : Environment σ) (range : UInt64) (workers : Nat) (s : σ) (turns : List FanOut.Turn)

abbrev after : FanOut σ Unit :=
  FanOut.after env threadName workers (populateFrom range.toNat workers) s turns

/-- What the population says, once it does. Without workers it says so before it starts any. -/
def said? : Option (Except PopulationError Unit) :=
  if workers = 0 then some (.error .noWorkers)
  else ((after env range workers s turns).returned? workers).map (outcome workers)

def log : List (Nat × Exchange (Fault CacheError)) :=
  if workers = 0 then []
  else (FanOut.start threadName s).log env workers (populateFrom range.toNat workers) turns

end Definitions

/-! ## Attempts and failures -/

section Attempts

variable {answers : Key → Except (Fault CacheError) Unit} {is : List Nat}

theorem attempted_isPrefix (answers : Key → Except (Fault CacheError) Unit) (is : List Nat) :
    attempted answers is <+: is := by
  induction is with
  | nil => exact List.prefix_rfl
  | cons i is ih =>
      cases h : answers (.ofNat i) with
      | error e =>
          rw [attempted_of_error h]
          exact ⟨is, rfl⟩
      | ok u =>
          rw [attempted_of_ok h]
          exact List.cons_prefix_cons.2 ⟨rfl, ih⟩

theorem firstFault?_eq_none_iff :
    firstFault? answers is = none ↔ ∀ i ∈ attempted answers is, answers (.ofNat i) = .ok () := by
  induction is with
  | nil => exact iff_of_true rfl (List.forall_mem_nil _)
  | cons i is ih =>
      cases h : answers (.ofNat i) with
      | error e => simp [firstFault?_of_error h, attempted_of_error h, h]
      | ok u => simp [firstFault?_of_ok h, attempted_of_ok h, h, ih]

theorem attempted_eq_of_firstFault?_eq_none (h : firstFault? answers is = none) :
    attempted answers is = is := by
  induction is with
  | nil => rfl
  | cons i is ih =>
      cases hanswer : answers (.ofNat i) with
      | error e =>
          rw [firstFault?_of_error hanswer] at h
          cases h
      | ok u =>
          rw [firstFault?_of_ok hanswer] at h
          rw [attempted_of_ok hanswer, ih h]

theorem failure?_endOf (name : String) (w : Nat) :
    (FanOut.failure? name w (endOf answers is)).isSome = (firstFault? answers is).isSome := by
  unfold endOf
  cases firstFault? answers is with
  | none => rfl
  | some e => cases e <;> rfl

theorem outcome_eq_ok_iff {workers : Nat} {report : List WorkerFailure} :
    outcome workers report = .ok () ↔ report = [] := by
  cases report <;> simp [outcome]

/-- The first of the failures is that of the lowest worker that has one. -/
theorem first_failuresOf {name : String} {workers : Nat}
    {ends : Nat → Except (Fault WorkError) Unit} {first : WorkerFailure} {rest : List WorkerFailure}
    (h : FanOut.failuresOf name workers ends = first :: rest) :
    ∃ w < workers, FanOut.failure? name w (ends w) = some first ∧
      ∀ w' < w, FanOut.failure? name w' (ends w') = none := by
  obtain ⟨before, w, later, hrange, hnone, hfirst, -⟩ := List.filterMap_eq_cons_iff.1 h
  have hsorted : (before ++ w :: later).Pairwise (· < ·) := hrange ▸ List.pairwise_lt_range
  have hlater := (List.pairwise_cons.1 (List.pairwise_append.1 hsorted).2.1).1
  have hw : w < workers := by
    rw [← List.mem_range, hrange]
    exact List.mem_append_right _ List.mem_cons_self
  refine ⟨w, hw, hfirst, fun w' hlt => hnone w' ?_⟩
  have hmem : w' ∈ before ++ w :: later := hrange ▸ List.mem_range.2 (hlt.trans hw)
  rcases List.mem_append.1 hmem with hmem | hmem
  · exact hmem
  · rcases List.mem_cons.1 hmem with rfl | hmem
    · exact absurd hlt (lt_irrefl _)
    · exact absurd (hlater w' hmem) (Nat.lt_asymm hlt)

theorem failuresOf_eq_nil_iff {name : String} {workers : Nat} {shares : Nat → List Nat} :
    FanOut.failuresOf name workers (fun w => endOf answers (shares w)) = [] ↔
      ∀ w < workers, firstFault? answers (shares w) = none := by
  simp only [FanOut.failuresOf, List.filterMap_eq_nil_iff, List.mem_range]
  refine forall₂_congr fun w _ => ?_
  rw [← Option.isNone_iff_eq_none, ← Option.isNone_iff_eq_none, ← Option.not_isSome,
    ← Option.not_isSome, failure?_endOf]

theorem length_failuresOf (name : String) {workers : Nat} {shares : Nat → List Nat} :
    (FanOut.failuresOf name workers fun w => endOf answers (shares w)).length =
      (List.range workers).countP fun w => (firstFault? answers (shares w)).isSome := by
  rw [FanOut.failuresOf, List.length_filterMap_eq_countP]
  exact congrArg (List.countP · _) (funext fun w => failure?_endOf name w)

end Attempts

/-! ## The log of all workers -/

def index (x : Exchange (Fault CacheError)) : Nat :=
  match x.request with
  | .put k _ => k.toNat
  | _ => 0

theorem index_attempt (answers : Key → Except (Fault CacheError) Unit) {i : Nat}
    (hi : i < 2 ^ 64) : index (attempt answers i) = i := UInt64.toNat_ofNat_of_lt' hi

/-- Workers whose indexes differ, and each of which has no index twice, have none twice together. -/
theorem nodup_index {xs : List (Nat × Exchange (Fault CacheError))}
    (hown : ∀ w, ((Crew.own w xs).map index).Nodup)
    (hdiffer : ∀ x ∈ xs, ∀ y ∈ xs, index x.2 = index y.2 → x.1 = y.1) :
    (xs.map fun x => index x.2).Nodup := by
  induction xs with
  | nil => exact List.nodup_nil
  | cons x xs ih =>
      have hcons (w : Nat) : Crew.own w (x :: xs) =
          if x.1 = w then x.2 :: Crew.own w xs else Crew.own w xs := by
        unfold Crew.own
        by_cases hw : x.1 = w <;> simp [hw]
      rw [List.map_cons, List.nodup_cons]
      constructor
      · intro hmem
        obtain ⟨y, hy, heq⟩ := List.mem_map.1 hmem
        have hworker := hdiffer x List.mem_cons_self y (List.mem_cons_of_mem x hy) heq.symm
        have hown' := hown x.1
        rw [hcons, if_pos rfl, List.map_cons, List.nodup_cons] at hown'
        refine hown'.1 (List.mem_map.2 ⟨y.2, Crew.mem_own.2 ?_, heq⟩)
        rwa [hworker]
      · refine ih (fun w => ?_) fun y hy z hz =>
          hdiffer y (List.mem_cons_of_mem x hy) z (List.mem_cons_of_mem x hz)
        have hown' := hown w
        rw [hcons] at hown'
        split at hown'
        · exact (List.nodup_cons.1 hown').2
        · exact hown'

section Log

variable {answers : Key → Except (Fault CacheError) Unit} {range workers : Nat}
  {xs : List (Nat × Exchange (Fault CacheError))}

/-- Each of the workers, and nobody else, has asked for the puts of its share up to the first that
fails. -/
structure Attempts (answers : Key → Except (Fault CacheError) Unit) (range workers : Nat)
    (xs : List (Nat × Exchange (Fault CacheError))) : Prop where
  worker_lt : ∀ x ∈ xs, x.1 < workers
  own : ∀ w < workers, Crew.own w xs =
    (attempted answers (share range workers w)).map (attempt answers)

namespace Attempts

theorem mem_iff (h : Attempts answers range workers xs) {w : Nat}
    {x : Exchange (Fault CacheError)} : (w, x) ∈ xs ↔
      w < workers ∧ ∃ i ∈ attempted answers (share range workers w), attempt answers i = x := by
  constructor
  · intro hx
    have hw := h.worker_lt _ hx
    have hown := Crew.mem_own.2 hx
    rw [h.own w hw] at hown
    exact ⟨hw, List.mem_map.1 hown⟩
  · rintro ⟨hw, hx⟩
    rw [← Crew.mem_own, h.own w hw]
    exact List.mem_map.2 hx

/-- What is asked is a put of an index, by the worker in whose share it is. -/
theorem exists_index (h : Attempts answers range workers xs)
    {x : Nat × Exchange (Fault CacheError)} (hx : x ∈ xs) :
    ∃ i < range, i % workers = x.1 ∧ x.2 = attempt answers i := by
  obtain ⟨hw, i, hi, heq⟩ := h.mem_iff.1 hx
  obtain ⟨hlt, hmod⟩ := (mem_share_iff hw).1 ((attempted_isPrefix answers _).subset hi)
  exact ⟨i, hlt, hmod, heq.symm⟩

theorem requests_eq (h : Attempts answers range workers xs) (hrange : range ≤ 2 ^ 64) :
    Crew.requests xs = (xs.map fun x => index x.2).map put := by
  rw [Crew.requests, List.map_map]
  refine List.map_congr_left fun x hx => ?_
  obtain ⟨i, hi, -, heq⟩ := h.exists_index hx
  rw [Function.comp_apply, heq, index_attempt answers (hi.trans_le hrange)]
  rfl

theorem index_lt (h : Attempts answers range workers xs) (hrange : range ≤ 2 ^ 64) :
    ∀ i ∈ xs.map fun x => index x.2, i < range := by
  intro i hi
  obtain ⟨x, hx, rfl⟩ := List.mem_map.1 hi
  obtain ⟨i, hi, -, heq⟩ := h.exists_index hx
  rwa [heq, index_attempt answers (hi.trans_le hrange)]

theorem nodup_index (h : Attempts answers range workers xs) (hworkers : 0 < workers)
    (hrange : range ≤ 2 ^ 64) : (xs.map fun x => index x.2).Nodup := by
  refine Population.nodup_index (fun w => ?own) fun x hx y hy heq => ?differ
  case own =>
    by_cases hw : w < workers
    · rw [h.own w hw, List.map_map]
      have hattempted := attempted_isPrefix answers (share range workers w)
      have hindex : (attempted answers (share range workers w)).map (index ∘ attempt answers) =
          attempted answers (share range workers w) := by
        refine (List.map_congr_left fun i hi => ?_).trans (List.map_id _)
        exact index_attempt answers
          (((mem_share_iff hw).1 (hattempted.subset hi)).1.trans_le hrange)
      rw [hindex]
      exact (nodup_share hworkers).sublist hattempted.sublist
    · have hnone : Crew.own w xs = [] := by
        refine List.eq_nil_iff_forall_not_mem.2 fun x hx => hw ?_
        exact h.worker_lt _ (Crew.mem_own.1 hx)
      rw [hnone]
      exact List.nodup_nil
  case differ =>
    obtain ⟨i, hi, hmod, hx'⟩ := h.exists_index hx
    obtain ⟨j, hj, hmod', hy'⟩ := h.exists_index hy
    rw [hx', hy', index_attempt answers (hi.trans_le hrange),
      index_attempt answers (hj.trans_le hrange)] at heq
    rw [← hmod, ← hmod', heq]

theorem succeeds_iff {i : Nat} :
    (attempt answers i).Succeeds ↔ answers (.ofNat i) = .ok () := ⟨fun ⟨_, h⟩ => h, fun h => ⟨_, h⟩⟩

theorem all_succeed_iff (h : Attempts answers range workers xs) : (∀ x ∈ xs, x.2.Succeeds) ↔
    ∀ w < workers, firstFault? answers (share range workers w) = none := by
  simp only [firstFault?_eq_none_iff]
  constructor
  · intro hall w hw i hi
    exact succeeds_iff.1 (hall (w, attempt answers i) (h.mem_iff.2 ⟨hw, i, hi, rfl⟩))
  · rintro hall ⟨w, x⟩ hx
    obtain ⟨hw, i, hi, rfl⟩ := h.mem_iff.1 hx
    exact succeeds_iff.2 (hall w hw i hi)

theorem perm_range (h : Attempts answers range workers xs) (hworkers : 0 < workers)
    (hrange : range ≤ 2 ^ 64)
    (hnone : ∀ w < workers, firstFault? answers (share range workers w) = none) :
    (xs.map fun x => index x.2).Perm (List.range range) := by
  refine (List.perm_ext_iff_of_nodup (h.nodup_index hworkers hrange) List.nodup_range).2 fun i => ?_
  rw [List.mem_range]
  refine ⟨h.index_lt hrange i, fun hi => ?_⟩
  have hw := Nat.mod_lt i hworkers
  refine List.mem_map.2 ⟨(i % workers, attempt answers i), h.mem_iff.2 ⟨hw, i, ?_, rfl⟩,
    index_attempt answers (hi.trans_le hrange)⟩
  rw [attempted_eq_of_firstFault?_eq_none (hnone _ hw)]
  exact (mem_share_iff hw).2 ⟨hi, rfl⟩

end Attempts

end Log

/-! ## What a population does -/

/-- What a population of the indexes below `range` has done when it says `result`. -/
structure Covered (answers : Key → Except (Fault CacheError) Unit) (range workers : Nat)
    (xs : List (Nat × Exchange (Fault CacheError))) (result : Except PopulationError Unit) :
    Prop extends Attempts answers range workers xs where
  /-- No index is put twice, and nothing else is asked. -/
  once : ∃ is : List Nat, is.Nodup ∧ (∀ i ∈ is, i < range) ∧ Crew.requests xs = is.map put
  ok_iff : result = .ok () ↔ ∀ x ∈ xs, x.2.Succeeds
  /-- Without a failure each index has been put once. -/
  complete : result = .ok () → (Crew.requests xs).Perm ((List.range range).map put)
  /-- A failure tells how many workers have failed, and how the first of them has. -/
  failed : result ≠ .ok () → ∃ w < workers, ∃ e first,
    firstFault? answers (share range workers w) = some e ∧
      (∀ w' < w, firstFault? answers (share range workers w') = none) ∧
      FanOut.failure? threadName w (.error (e.map .cache) : Except (Fault WorkError) Unit) =
        some first ∧
      result = .error (.failed
        ((List.range workers).countP fun w => (firstFault? answers (share range workers w)).isSome)
        workers first)

section Covered

variable {env : Environment σ} {answers : Key → Except (Fault CacheError) Unit}
  {range : UInt64} {workers : Nat} {s : σ} {turns : List FanOut.Turn}

theorem attempts_of_returned (hput : ∀ k v s, (env.answer (.put k v) s).1 = answers k)
    (hworkers : 0 < workers) (hfit : range.toNat + workers ≤ 2 ^ 64) {report : List WorkerFailure}
    (hreport : (after env range workers s turns).returned? workers = some report) :
    Attempts answers range.toNat workers ((FanOut.start threadName s).log env workers
      (populateFrom range.toNat workers) turns) := by
  have hcollected := (FanOut.collected_run env threadName workers
    (populateFrom range.toNat workers) s turns).2 report hreport
  have htracks := FanOut.tracks_after env workers (populateFrom range.toNat workers) threadName s
    turns
  constructor
  · intro x hx
    by_contra hlt
    have hsilent := htracks.silent x.1 fun hcalled =>
      hlt (List.mem_range.1 (hcollected.calls.subset hcalled))
    exact List.not_mem_nil (hsilent ▸ Crew.mem_own.2 hx)
  · intro w hw
    obtain ⟨a, -, hruns⟩ := hcollected.ended w hw
    exact (runsIn_populateFrom hput hworkers hfit hruns).1

/-- What the workers have failed with is told by the answers alone. -/
theorem report_of_returned (hput : ∀ k v s, (env.answer (.put k v) s).1 = answers k)
    (hworkers : 0 < workers) (hfit : range.toNat + workers ≤ 2 ^ 64) {report : List WorkerFailure}
    (hreport : (after env range workers s turns).returned? workers = some report) :
    report = FanOut.failuresOf threadName workers
        (fun w => endOf answers (share range.toNat workers w)) ∧
      report = (runParallel env threadName workers (populateFrom range.toNat workers) s).1 :=
  ((FanOut.collected_run env threadName workers (populateFrom range.toNat workers) s turns).2 report
    hreport).same _ fun _ _ _ _ hruns => (runsIn_populateFrom hput hworkers hfit hruns).2

theorem Attempts.covered {xs : List (Nat × Exchange (Fault CacheError))} {range : Nat}
    (h : Attempts answers range workers xs) (hworkers : 0 < workers) (hrange : range ≤ 2 ^ 64) :
    Covered answers range workers xs (outcome workers (FanOut.failuresOf threadName workers
      fun w => endOf answers (share range workers w))) := by
  have hok : outcome workers (FanOut.failuresOf threadName workers
      fun w => endOf answers (share range workers w)) = .ok () ↔
        ∀ w < workers, firstFault? answers (share range workers w) = none :=
    outcome_eq_ok_iff.trans failuresOf_eq_nil_iff
  have hrequests := h.requests_eq hrange
  refine ⟨h, ⟨_, h.nodup_index hworkers hrange, h.index_lt hrange, hrequests⟩,
    hok.trans h.all_succeed_iff.symm, fun hsaid => ?complete, fun hsaid => ?failed⟩
  case complete =>
    rw [hrequests]
    exact (h.perm_range hworkers hrange (hok.1 hsaid)).map put
  case failed =>
    cases hfailures : FanOut.failuresOf threadName workers
        fun w => endOf answers (share range workers w) with
    | nil => exact absurd (outcome_eq_ok_iff.2 hfailures) hsaid
    | cons first rest =>
        obtain ⟨w, hw, hfirst, hbelow⟩ := first_failuresOf hfailures
        have hlength : rest.length + 1 = (List.range workers).countP fun w =>
            (firstFault? answers (share range workers w)).isSome := by
          rw [← length_failuresOf threadName, hfailures, List.length_cons]
        have hnone : ∀ w' < w, firstFault? answers (share range workers w') = none := by
          intro w' hw'
          rw [← Option.isNone_iff_eq_none, ← Option.not_isSome, ← failure?_endOf threadName w',
            hbelow w' hw']
          rfl
        cases he : firstFault? answers (share range workers w) with
        | none =>
            rw [endOf, he] at hfirst
            cases hfirst
        | some e =>
            rw [endOf, he] at hfirst
            exact ⟨w, hw, e, first, he, hnone, hfirst, by rw [outcome, hlength]⟩

end Covered

/-- A population comes to an end in whatever order its workers go on, and then has put each index
of their shares once up to their failures, which is all that it tells. -/
theorem covered_run (env : Environment σ) (answers : Key → Except (Fault CacheError) Unit)
    (hput : ∀ k v s, (env.answer (.put k v) s).1 = answers k) (config : Config)
    (hconfig : config.validate = .ok ()) (workers : Nat) (hworkers : workers ≤ 2 ^ 63) (s : σ)
    (turns : List FanOut.Turn) :
    (workers = 0 → said? env config.range workers s turns = some (.error .noWorkers) ∧
      log env config.range workers s turns = [] ∧
      populate env config.range workers s = (.error .noWorkers, s)) ∧
    (0 < workers →
      (∃ later result, said? env config.range workers s (turns ++ later) = some result) ∧
      ∀ result, said? env config.range workers s turns = some result →
        Covered answers config.range.toNat workers (log env config.range workers s turns) result ∧
          result = (populate env config.range workers s).1) := by
  constructor
  · rintro rfl
    exact ⟨if_pos rfl, if_pos rfl, if_pos rfl⟩
  · intro hpos
    have hne := Nat.ne_of_gt hpos
    have hbound := (range_of_validate hconfig).2
    have hfit : config.range.toNat + workers ≤ 2 ^ 64 := by omega
    constructor
    · obtain ⟨later, report, hreport⟩ := (FanOut.collected_run env threadName workers
        (populateFrom config.range.toNat workers) s turns).1
      refine ⟨later, outcome workers report, ?_⟩
      rw [said?, if_neg hne, after, hreport, Option.map_some]
    · intro result hsaid
      rw [said?, if_neg hne] at hsaid
      obtain ⟨report, hreport, rfl⟩ := Option.map_eq_some_iff.1 hsaid
      obtain ⟨hfailures, hreport'⟩ := report_of_returned hput hpos hfit hreport
      have hattempts := attempts_of_returned hput hpos hfit hreport
      constructor
      · rw [log, if_neg hne, hfailures]
        exact hattempts.covered hpos (by omega)
      · rw [populate, if_neg hne, hreport']
        rfl

/-- A cache that takes only the puts that are answered well. -/
def faulty (answers : Key → Except (Fault CacheError) Unit) : Service Cache
  | .put k v, c =>
    match answers k with
    | .ok () => Cache.service (.put k v) c
    | .error e => (.error e, c)
  | r, c => Cache.service r c

/-- The put of 3 fails, and that of 7 panics. -/
def mixedAnswers (k : Key) : Except (Fault CacheError) Unit :=
  if k = 3 then .error (.error (.remote "refused"))
  else if k = 7 then .error (.panic (some "boom"))
  else .ok ()

theorem covered_run_faulty :
    let env := (faulty mixedAnswers).withGenerator
    let config : Config := { range := 8, batch := 1 }
    let s := (Cache.ofSettings { name := queryCache }, Generator.seeded 1)
    ∃ turns, said? env config.range 3 s turns = some (.error (.failed 2 3
        ⟨0, "query-populate-0", .cache (.remote "refused")⟩)) ∧
      Crew.own 0 (log env config.range 3 s turns) =
        [attempt mixedAnswers 0, attempt mixedAnswers 3] := by
  intro env config s
  have hput : ∀ k v s, (env.answer (.put k v) s).1 = mixedAnswers k := by
    intro k v s
    change (faulty mixedAnswers (.put k v) s.1).1 = mixedAnswers k
    rw [faulty]
    cases mixedAnswers k <;> rfl
  have hpopulation := fun turns =>
    (covered_run env mixedAnswers hput config (by decide) 3 (by decide) s turns).2 (by decide)
  obtain ⟨turns, result, hsaid⟩ := (hpopulation []).1
  obtain ⟨hcovered, -⟩ := (hpopulation _).2 result hsaid
  have hfault : firstFault? mixedAnswers (share 8 3 0) = some (.error (.remote "refused")) := rfl
  have hfailed : result ≠ .ok () := by
    intro hok
    have hnone := hcovered.toAttempts.all_succeed_iff.1 (hcovered.ok_iff.1 hok) 0 (by decide)
    cases hnone.symm.trans hfault
  obtain ⟨w, hw, e, first, he, hbelow, hfirst, rfl⟩ := hcovered.failed hfailed
  obtain rfl : w = 0 := by
    by_contra hne
    cases (hbelow 0 (Nat.pos_of_ne_zero hne)).symm.trans hfault
  cases hfault.symm.trans he
  cases hfirst
  exact ⟨_, hsaid, (hcovered.own 0 (by decide)).trans rfl⟩

end Population

end CacheBench
