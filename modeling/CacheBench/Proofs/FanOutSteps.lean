import CacheBench.Crew.FanOut
import CacheBench.Proofs.CrewRuns
import Mathlib.Data.List.Nodup

/-!
# Steps of a fan-out

`Move` lists all that one turn of a fan-out can do. From it come two invariants of every run: what a
worker has asked so far is the first part of a run of its task (`Tracks`), and the failures noted so
far are those of the threads that have ended, where a panic counts once its thread is joined
(`Tally`).
-/

namespace CacheBench

/-- The program can make these exchanges and then end with `a`, when the environment answers each of
them in a state of its choice. -/
def Program.RunsIn {σ α : Type} (env : Environment σ) :
    Program α → List (Exchange (Fault CacheError)) → α → Prop
  | .done b, xs, a => xs = [] ∧ a = b
  | .ask r next, xs, a => ∃ s ys, xs = ⟨r, (env.answer r s).1⟩ :: ys ∧
    (next (env.answer r s).1).RunsIn env ys a
  | .draw d next, xs, a => ∃ s, (next (env.draw d s).1).RunsIn env xs a

abbrev Work.RunsIn {σ α : Type} (env : Environment σ) (w : Work α) :
    List (Exchange (Fault CacheError)) → Except (Fault WorkError) α → Prop :=
  w.run.RunsIn env

namespace FanOut

variable {σ α β : Type} {env : Environment σ} {workers : Nat} {task : Nat → Work α}

/-! ## What happens in a run -/

def called? (f : FanOut σ α) : Turn → Option Nat
  | .caller => none
  | .worker w =>
    match f.threads[w]? with
    | some none => some w
    | _ => none

def exchange? (env : Environment σ) (f : FanOut σ α) :
    Turn → Option (Nat × Exchange (Fault CacheError))
  | .caller => none
  | .worker w =>
    match f.threads[w]? with
    | some (some (.running (.ask r _))) => some (w, ⟨r, (env.answer r f.state).1⟩)
    | _ => none

section History

variable (env workers task)

def calls (f : FanOut σ α) : List Turn → List Nat
  | [] => []
  | t :: ts => (f.called? t).toList ++ calls (f.step env workers task t) ts

def log (f : FanOut σ α) : List Turn → List (Nat × Exchange (Fault CacheError))
  | [] => []
  | t :: ts => (f.exchange? env t).toList ++ log (f.step env workers task t) ts

end History

def Ended (f : FanOut σ α) (w : Nat) (result : Except (Fault WorkError) α) : Prop :=
  f.threads[w]? = some (some (.ended result))

theorem run_append (f : FanOut σ α) (ts ts' : List Turn) :
    f.run env workers task (ts ++ ts') = (f.run env workers task ts).run env workers task ts' :=
  List.foldl_append

theorem Ended.lt_length {f : FanOut σ α} {w : Nat} {a : Except (Fault WorkError) α}
    (h : f.Ended w a) : w < f.threads.length := (List.getElem?_eq_some_iff.1 h).1

theorem Ended.unique {f : FanOut σ α} {w : Nat} {a b : Except (Fault WorkError) α}
    (ha : f.Ended w a) (hb : f.Ended w b) : a = b := by
  cases ha.symm.trans hb
  rfl

/-- Which threads have ended after a turn of one that had not. -/
theorem ended_set_iff {f : FanOut σ α} {w w' : Nat} {y z : Option (Worker α)}
    {a : Except (Fault WorkError) α} (hw : f.threads[w]? = some y)
    (hy : ∀ b, y ≠ some (.ended b)) : (f.threads.set w z)[w']? = some (some (.ended a)) ↔
      w = w' ∧ z = some (.ended a) ∨ f.Ended w' a := by
  by_cases hne : w = w'
  · subst w'
    have hnot : ¬ f.Ended w a := fun ha => hy a (Option.some.inj (hw.symm.trans ha))
    rw [List.getElem?_set_self (List.getElem?_eq_some_iff.1 hw).1, Option.some.injEq,
      or_iff_left hnot, and_iff_right rfl]
  · rw [List.getElem?_set_ne hne, Ended, or_iff_right fun h => hne h.1]

/-! ## One turn -/

/-- What a turn can do, with the call and the request that are made in it. -/
inductive Move (env : Environment σ) (workers : Nat) (task : Nat → Work α) (f : FanOut σ α) :
    Turn → Option Nat → Option (Nat × Exchange (Fault CacheError)) → FanOut σ α → Prop
  | waits {t : Turn} : Move env workers task f t none none f
  | starts (h : f.threads.length < workers) :
    Move env workers task f .caller none none { f with threads := f.threads ++ [none] }
  | joins {a : Except (Fault WorkError) α} (hall : workers ≤ f.threads.length)
    (h : f.Ended f.joined a) :
    Move env workers task f .caller none none
      { f with
        joined := f.joined + 1
        failures := f.failures ++ (collected? f.threadName f.joined a).toList }
  | calls {w : Nat} (h : f.threads[w]? = some none) :
    Move env workers task f (.worker w) (some w) none
      { f with threads := f.threads.set w (some (.running (task w).run)) }
  | asks {w : Nat} {r : Request} {next : Response r → Program (Except (Fault WorkError) α)}
    (h : f.threads[w]? = some (some (.running (.ask r next)))) :
    Move env workers task f (.worker w) none (some (w, ⟨r, (env.answer r f.state).1⟩))
      { f with
        threads := f.threads.set w (some (.running (next (env.answer r f.state).1)))
        state := (env.answer r f.state).2 }
  | draws {w : Nat} {d : Draw} {next : d.Answer → Program (Except (Fault WorkError) α)}
    (h : f.threads[w]? = some (some (.running (.draw d next)))) :
    Move env workers task f (.worker w) none none
      { f with
        threads := f.threads.set w (some (.running (next (env.draw d f.state).1)))
        state := (env.draw d f.state).2 }
  | ends {w : Nat} {a : Except (Fault WorkError) α}
    (h : f.threads[w]? = some (some (.running (.done a)))) :
    Move env workers task f (.worker w) none none
      { f with
        threads := f.threads.set w (some (.ended a))
        failures := f.failures ++ (noted? f.threadName w a).toList }

theorem move_step (f : FanOut σ α) (t : Turn) :
    Move env workers task f t (f.called? t) (f.exchange? env t) (f.step env workers task t) := by
  cases t with
  | caller =>
      change Move env workers task f .caller none none (f.call workers)
      unfold call
      split
      · exact .starts ‹_›
      · rename_i hall
        split
        · exact .joins (Nat.not_lt.1 hall) ‹_›
        · exact .waits
  | worker w =>
      simp only [called?, exchange?, step, advance]
      cases hw : f.threads[w]? with
      | none => exact .waits
      | some x =>
          cases x with
          | none => exact .calls hw
          | some x =>
              cases x with
              | ended a => exact .waits
              | running p =>
                  cases p with
                  | done a => exact .ends hw
                  | ask r next => exact .asks hw
                  | draw d next => exact .draws hw

section Move

variable {f f' : FanOut σ α} {t : Turn} {call : Option Nat}
  {x : Option (Nat × Exchange (Fault CacheError))}

theorem Move.ended (h : Move env workers task f t call x f') {w : Nat}
    {a : Except (Fault WorkError) α} (ha : f.Ended w a) : f'.Ended w a := by
  cases h with
  | waits | joins => exact ha
  | starts => exact (List.getElem?_append_left ha.lt_length).trans ha
  | calls hw | asks hw | draws hw | ends hw => exact (ended_set_iff hw nofun).2 (.inr ha)

/-- The turn of a worker starts no thread and joins none. -/
theorem Move.of_worker {w : Nat} (h : Move env workers task f (.worker w) call x f') :
    f'.threads.length = f.threads.length ∧ f'.joined = f.joined := by
  cases h with
  | waits => exact ⟨rfl, rfl⟩
  | calls | asks | draws | ends => exact ⟨List.length_set .., rfl⟩

theorem Move.threadName (h : Move env workers task f t call x f') :
    f'.threadName = f.threadName := by
  cases h <;> rfl

end Move

theorem threadName_run (f : FanOut σ α) (ts : List Turn) :
    (f.run env workers task ts).threadName = f.threadName := by
  induction ts generalizing f with
  | nil => rfl
  | cons t ts ih => exact (ih _).trans (move_step f t).threadName

/-! ## What the workers ask -/

/-- The task of each worker is called once at most, and what the worker has asked by then is the
first part of a run of it. -/
structure Tracks (env : Environment σ) (task : Nat → Work α) (f : FanOut σ α) (called : List Nat)
    (xs : List (Nat × Exchange (Fault CacheError))) : Prop where
  nodup : called.Nodup
  mem_called : ∀ w, w ∈ called ↔ ∃ x, f.threads[w]? = some (some x)
  running : ∀ w p, f.threads[w]? = some (some (.running p)) → ∀ ys a, p.RunsIn env ys a →
    (task w).RunsIn env (Crew.own w xs ++ ys) a
  ended : ∀ w a, f.Ended w a → (task w).RunsIn env (Crew.own w xs) a
  silent : ∀ w, w ∉ called → Crew.own w xs = []

namespace Tracks

variable {f f' : FanOut σ α} {called : List Nat} {xs : List (Nat × Exchange (Fault CacheError))}

theorem start (threadName : String) (s : σ) :
    Tracks env task (FanOut.start threadName s) [] [] where
  nodup := List.nodup_nil
  mem_called w := by simp [FanOut.start]
  running := nofun
  ended := nofun
  silent _ _ := rfl

/-- One thread goes on, from which the others cannot be told. -/
theorem set (h : Tracks env task f called xs) {w : Nat} {y z : Worker α}
    (hw : f.threads[w]? = some (some y)) (hthreads : f'.threads = f.threads.set w (some z))
    (new : Option (Exchange (Fault CacheError)))
    (hrunning : ∀ q, z = .running q → ∀ ys a, q.RunsIn env ys a →
      (task w).RunsIn env (Crew.own w xs ++ (new.toList ++ ys)) a)
    (hended : ∀ a, z = .ended a → (task w).RunsIn env (Crew.own w xs ++ new.toList) a) :
    Tracks env task f' called (xs ++ (new.map fun x => (w, x)).toList) := by
  have hlt := (List.getElem?_eq_some_iff.1 hw).1
  have hself : f'.threads[w]? = some (some z) := by
    rw [hthreads, List.getElem?_set_self hlt]
  have hother {w' : Nat} (hne : w' ≠ w) : f'.threads[w']? = f.threads[w']? := by
    rw [hthreads, List.getElem?_set_ne (Ne.symm hne)]
  have hown : Crew.own w (xs ++ (new.map fun x => (w, x)).toList) =
      Crew.own w xs ++ new.toList := by
    rw [Crew.own_append]
    cases new <;> simp [Crew.own]
  have hothers {w' : Nat} (hne : w' ≠ w) :
      Crew.own w' (xs ++ (new.map fun x => (w, x)).toList) = Crew.own w' xs := by
    rw [Crew.own_append]
    cases new <;> simp [Crew.own, Ne.symm hne]
  refine ⟨h.nodup, fun w' => ?mem, fun w' q hq ys a hys => ?running, fun w' a ha => ?ended,
    fun w' hnot => ?silent⟩
  case mem =>
    rw [h.mem_called]
    by_cases hne : w' = w
    · subst w'
      exact iff_of_true ⟨y, hw⟩ ⟨z, hself⟩
    · rw [hother hne]
  case running =>
    by_cases hne : w' = w
    · subst w'
      rw [hself] at hq
      rw [hown, List.append_assoc]
      exact hrunning q (Option.some.inj (Option.some.inj hq)) ys a hys
    · rw [hother hne] at hq
      rw [hothers hne]
      exact h.running w' q hq ys a hys
  case ended =>
    by_cases hne : w' = w
    · subst w'
      rw [Ended, hself] at ha
      rw [hown]
      exact hended a (Option.some.inj (Option.some.inj ha))
    · rw [Ended, hother hne] at ha
      rw [hothers hne]
      exact h.ended w' a ha
  case silent =>
    have hne : w' ≠ w := by
      rintro rfl
      exact hnot ((h.mem_called w').2 ⟨y, hw⟩)
    rw [hothers hne]
    exact h.silent w' hnot

theorem call (h : Tracks env task f called xs) {w : Nat} (hw : f.threads[w]? = some none)
    (hthreads : f'.threads = f.threads.set w (some (.running (task w).run))) :
    Tracks env task f' (called ++ [w]) xs := by
  have hlt := (List.getElem?_eq_some_iff.1 hw).1
  have hself : f'.threads[w]? = some (some (.running (task w).run)) := by
    rw [hthreads, List.getElem?_set_self hlt]
  have hother {w' : Nat} (hne : w' ≠ w) : f'.threads[w']? = f.threads[w']? := by
    rw [hthreads, List.getElem?_set_ne (Ne.symm hne)]
  have hnot : w ∉ called := by
    intro hmem
    obtain ⟨x, hx⟩ := (h.mem_called w).1 hmem
    cases hw.symm.trans hx
  refine ⟨?nodup, fun w' => ?mem, fun w' q hq ys a hys => ?running, fun w' a ha => ?ended,
    fun w' hmem => h.silent w' fun hmem' => hmem (List.mem_append_left _ hmem')⟩
  case nodup =>
    rw [← List.concat_eq_append]
    exact List.Nodup.concat hnot h.nodup
  case mem =>
    rw [List.mem_append, List.mem_singleton]
    by_cases hne : w' = w
    · subst w'
      exact iff_of_true (.inr rfl) ⟨_, hself⟩
    · rw [hother hne, h.mem_called]
      simp [hne]
  case running =>
    by_cases hne : w' = w
    · subst w'
      cases Option.some.inj (Option.some.inj (hself.symm.trans hq))
      rwa [h.silent w hnot, List.nil_append]
    · rw [hother hne] at hq
      exact h.running w' q hq ys a hys
  case ended =>
    have hne : w' ≠ w := by
      rintro rfl
      cases hself.symm.trans ha
    rw [Ended, hother hne] at ha
    exact h.ended w' a ha

/-- What the caller does to the list of threads is nothing to those that have called their task. -/
theorem congr (h : Tracks env task f called xs)
    (hthreads : ∀ (w : Nat) (x : Worker α),
      f'.threads[w]? = some (some x) ↔ f.threads[w]? = some (some x)) :
    Tracks env task f' called xs where
  nodup := h.nodup
  mem_called w := (h.mem_called w).trans (exists_congr fun x => (hthreads w x).symm)
  running w p hp := h.running w p ((hthreads w _).1 hp)
  ended w a ha := h.ended w a ((hthreads w _).1 ha)
  silent := h.silent

theorem move {t : Turn} {c : Option Nat} {x : Option (Nat × Exchange (Fault CacheError))}
    (h : Tracks env task f called xs) (hmove : Move env workers task f t c x f') :
    Tracks env task f' (called ++ c.toList) (xs ++ x.toList) := by
  cases hmove with
  | waits =>
      rw [Option.toList_none, Option.toList_none, List.append_nil, List.append_nil]
      exact h
  | joins =>
      rw [Option.toList_none, Option.toList_none, List.append_nil, List.append_nil]
      exact h.congr fun _ _ => Iff.rfl
  | starts =>
      rw [Option.toList_none, Option.toList_none, List.append_nil, List.append_nil]
      refine h.congr fun w x => ?_
      rw [List.getElem?_append]
      split
      · rfl
      · rename_i hle
        rw [List.getElem?_eq_none (Nat.not_lt.1 hle)]
        simp [List.getElem?_singleton]
  | calls hw =>
      rw [Option.toList_none, List.append_nil]
      exact h.call hw rfl
  | asks hw =>
      rw [Option.toList_none, List.append_nil]
      refine h.set hw rfl (some _) (fun q hq ys a hys => ?_) nofun
      cases hq
      exact h.running _ _ hw _ _ ⟨_, _, rfl, hys⟩
  | draws hw =>
      rw [Option.toList_none, List.append_nil]
      refine h.set hw rfl none (fun q hq ys a hys => ?_) nofun
      cases hq
      exact h.running _ _ hw _ _ ⟨_, hys⟩
  | ends hw =>
      rw [Option.toList_none, List.append_nil]
      refine h.set hw rfl none nofun fun a ha => ?_
      cases ha
      exact h.running _ _ hw _ _ ⟨rfl, rfl⟩

theorem run (h : Tracks env task f called xs) (ts : List Turn) :
    Tracks env task (f.run env workers task ts) (called ++ f.calls env workers task ts)
      (xs ++ f.log env workers task ts) := by
  induction ts generalizing f called xs with
  | nil => simpa [FanOut.run, calls, log] using h
  | cons t ts ih =>
      rw [calls, log, ← List.append_assoc, ← List.append_assoc]
      exact ih (h.move (move_step f t))

end Tracks

/-! ## What is noted -/

def failure? (threadName : String) (w : Nat) : Except (Fault WorkError) α → Option WorkerFailure
  | .ok _ => none
  | .error (.error e) => some ⟨w, threadName ++ toString w, e.report⟩
  | .error (.panic text) => some ⟨w, threadName ++ toString w, Crew.panicReport text⟩

theorem failure?_eq_some_iff {threadName : String} {w : Nat} {a : Except (Fault WorkError) α}
    {g : WorkerFailure} : failure? threadName w a = some g ↔
      noted? threadName w a = some g ∨ collected? threadName w a = some g := by
  rcases a with (e | text) | a <;> simp [failure?, noted?, collected?]

theorem worker_of_failure? {threadName : String} {w : Nat} {a : Except (Fault WorkError) α}
    {g : WorkerFailure} (h : failure? threadName w a = some g) : g.worker = w := by
  unfold failure? at h
  split at h <;> cases h <;> rfl

/-- What the caller notes of a thread, the thread has not. -/
theorem noted?_eq_none {threadName : String} {w : Nat} {a : Except (Fault WorkError) α}
    {g : WorkerFailure} (h : collected? threadName w a = some g) :
    noted? threadName w a = none := by
  rcases a with (e | text) | a
  · cases h
  · rfl
  · rfl

/-- The failures noted so far are those of the threads that have ended, where a panic counts once
its thread is joined. -/
structure Tally (workers : Nat) (f : FanOut σ α) : Prop where
  length_le : f.threads.length ≤ workers
  joined : ∀ w < f.joined, ∃ a, f.Ended w a
  nodup : (f.failures.map WorkerFailure.worker).Nodup
  mem_failures : ∀ g, g ∈ f.failures ↔ ∃ w a, f.Ended w a ∧
    (noted? f.threadName w a = some g ∨ w < f.joined ∧ collected? f.threadName w a = some g)

namespace Tally

variable {f f' : FanOut σ α}

theorem start (threadName : String) (s : σ) :
    (FanOut.start threadName s : FanOut σ α).Tally workers where
  length_le := Nat.zero_le _
  joined _ h := absurd h (Nat.not_lt_zero _)
  nodup := List.nodup_nil
  mem_failures g := by simp [FanOut.start, Ended]

theorem joined_le (h : f.Tally workers) : f.joined ≤ workers := by
  by_contra hlt
  obtain ⟨a, ha⟩ := h.joined workers (Nat.not_le.1 hlt)
  exact Nat.not_lt.2 h.length_le ha.lt_length

/-- Nothing is noted unless a thread ends or is joined. -/
theorem congr (h : f.Tally workers) (hlength : f'.threads.length ≤ workers)
    (hended : ∀ w a, f'.Ended w a ↔ f.Ended w a) (hname : f'.threadName = f.threadName)
    (hjoined : f'.joined = f.joined) (hfailures : f'.failures = f.failures) :
    f'.Tally workers where
  length_le := hlength
  joined w hw := by
    obtain ⟨a, ha⟩ := h.joined w (hjoined ▸ hw)
    exact ⟨a, (hended w a).2 ha⟩
  nodup := hfailures ▸ h.nodup
  mem_failures g := by simp only [hfailures, h.mem_failures, hended, hname, hjoined]

theorem worker_of_mem (h : f.Tally workers) {g : WorkerFailure} (hg : g ∈ f.failures) :
    ∃ a, f.Ended g.worker a ∧ (noted? f.threadName g.worker a = some g ∨ g.worker < f.joined) := by
  obtain ⟨w, a, ha, hnoted⟩ := (h.mem_failures g).1 hg
  have hworker : g.worker = w :=
    worker_of_failure? (failure?_eq_some_iff.2 (hnoted.imp_right And.right))
  subst w
  exact ⟨a, ha, hnoted.imp_right And.left⟩

theorem nodup_append (h : f.Tally workers) {o : Option WorkerFailure}
    (hnew : ∀ g, o = some g → ∀ g' ∈ f.failures, g'.worker ≠ g.worker) :
    ((f.failures ++ o.toList).map WorkerFailure.worker).Nodup := by
  cases o with
  | none => simpa using h.nodup
  | some g =>
      rw [Option.toList_some, List.map_append, List.map_singleton, ← List.concat_eq_append]
      refine List.Nodup.concat (fun hmem => ?_) h.nodup
      obtain ⟨g', hg', hworker⟩ := List.mem_map.1 hmem
      exact hnew g rfl g' hg' hworker

theorem ends (h : f.Tally workers) {w : Nat} {a : Except (Fault WorkError) α}
    (hw : f.threads[w]? = some (some (.running (.done a)))) :
    ({ f with
      threads := f.threads.set w (some (.ended a))
      failures := f.failures ++ (noted? f.threadName w a).toList } : FanOut σ α).Tally workers := by
  have hnot {w' : Nat} {b : Except (Fault WorkError) α} (hb : f.Ended w' b) : w ≠ w' := by
    rintro rfl
    cases hw.symm.trans hb
  have hended (w' : Nat) (b : Except (Fault WorkError) α) :
      (f.threads.set w (some (.ended a)))[w']? = some (some (.ended b)) ↔
        w = w' ∧ some (Worker.ended a) = some (.ended b) ∨ f.Ended w' b := ended_set_iff hw nofun
  refine ⟨(List.length_set ..).le.trans h.length_le, fun w' hw' => ?joined, ?nodup, fun g => ?mem⟩
  case joined =>
    obtain ⟨b, hb⟩ := h.joined w' hw'
    exact ⟨b, (hended w' b).2 (.inr hb)⟩
  case nodup =>
    refine h.nodup_append fun g hg g' hg' => ?_
    obtain ⟨b, hb, -⟩ := h.worker_of_mem hg'
    rw [worker_of_failure? (failure?_eq_some_iff.2 (.inl hg))]
    exact Ne.symm (hnot hb)
  case mem =>
    rw [List.mem_append, h.mem_failures, Option.mem_toList]
    constructor
    · rintro (⟨w', b, hb, hnoted⟩ | hg)
      · exact ⟨w', b, (hended w' b).2 (.inr hb), hnoted⟩
      · exact ⟨w, a, (hended w a).2 (.inl ⟨rfl, rfl⟩), .inl hg⟩
    · rintro ⟨w', b, hb, hnoted⟩
      rcases (hended w' b).1 hb with ⟨rfl, ⟨⟩⟩ | hb
      · rcases hnoted with hg | ⟨hlt, -⟩
        · exact .inr hg
        · obtain ⟨c, hc⟩ := h.joined w hlt
          exact absurd rfl (hnot hc)
      · exact .inl ⟨w', b, hb, hnoted⟩

theorem joins (h : f.Tally workers) {a : Except (Fault WorkError) α} (ha : f.Ended f.joined a) :
    ({ f with
      joined := f.joined + 1
      failures := f.failures ++ (collected? f.threadName f.joined a).toList } :
        FanOut σ α).Tally workers := by
  refine ⟨h.length_le, fun w hw => ?joined, ?nodup, fun g => ?mem⟩
  case joined =>
    rcases Nat.lt_succ_iff_lt_or_eq.1 hw with hw | rfl
    · exact h.joined w hw
    · exact ⟨a, ha⟩
  case nodup =>
    refine h.nodup_append fun g hg g' hg' => ?_
    rw [worker_of_failure? (failure?_eq_some_iff.2 (.inr hg))]
    intro heq
    obtain ⟨b, hb, hnoted | hlt⟩ := h.worker_of_mem hg'
    · rw [heq] at hb hnoted
      obtain rfl := ha.unique hb
      cases (noted?_eq_none hg).symm.trans hnoted
    · exact absurd heq (Nat.ne_of_lt hlt)
  case mem =>
    rw [List.mem_append, h.mem_failures, Option.mem_toList]
    constructor
    · rintro (⟨w, b, hb, hnoted⟩ | hg)
      · exact ⟨w, b, hb, hnoted.imp_right fun ⟨hlt, hg⟩ => ⟨Nat.lt_succ_of_lt hlt, hg⟩⟩
      · exact ⟨f.joined, a, ha, .inr ⟨Nat.lt_succ_self _, hg⟩⟩
    · rintro ⟨w, b, hb, hg | ⟨hlt, hg⟩⟩
      · exact .inl ⟨w, b, hb, .inl hg⟩
      · rcases Nat.lt_succ_iff_lt_or_eq.1 hlt with hlt | rfl
        · exact .inl ⟨w, b, hb, .inr ⟨hlt, hg⟩⟩
        · obtain rfl := ha.unique hb
          exact .inr hg

theorem move {t : Turn} {c : Option Nat} {x : Option (Nat × Exchange (Fault CacheError))}
    (h : f.Tally workers) (hmove : Move env workers task f t c x f') : f'.Tally workers := by
  have hset {w : Nat} {y z : Option (Worker α)} (hw : f.threads[w]? = some y)
      (hy : ∀ a, y ≠ some (.ended a)) (hz : ∀ a, z ≠ some (.ended a)) (w' : Nat)
      (a : Except (Fault WorkError) α) :
      (f.threads.set w z)[w']? = some (some (.ended a)) ↔ f.Ended w' a :=
    (ended_set_iff hw hy).trans (or_iff_right fun h => hz a h.2)
  have hlength (w : Nat) (z : Option (Worker α)) : (f.threads.set w z).length ≤ workers :=
    (List.length_set ..).le.trans h.length_le
  cases hmove with
  | waits => exact h
  | starts hlt =>
      refine h.congr ?_ (fun w a => ?_) rfl rfl rfl
      · rw [List.length_append]
        exact hlt
      · rw [Ended, Ended, List.getElem?_append]
        split
        · rfl
        · rename_i hle
          rw [List.getElem?_eq_none (Nat.not_lt.1 hle)]
          simp [List.getElem?_singleton]
  | joins _ ha => exact h.joins ha
  | calls hw | asks hw | draws hw => exact h.congr (hlength _ _) (hset hw nofun nofun) rfl rfl rfl
  | ends hw => exact h.ends hw

theorem run (h : f.Tally workers) (ts : List Turn) : (f.run env workers task ts).Tally workers := by
  induction ts generalizing f with
  | nil => exact h
  | cons t ts ih => exact ih (h.move (move_step f t))

end Tally

end FanOut

end CacheBench
