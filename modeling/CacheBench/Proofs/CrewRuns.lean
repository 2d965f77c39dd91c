import CacheBench.Crew
import CacheBench.Proofs.Runs
import CacheBench.Proofs.Timeline

/-!
# What the workers of a crew do

`Crew.log` lists what the workers of a crew ask in a schedule, with what comes back. What a worker
has asked by any time is the first part of a run of its task, and the whole run once it has ended.
-/

namespace CacheBench

namespace Crew

variable {σ α : Type} {env : Environment σ}

def exchange? (env : Environment σ) (c : Crew σ α) (w : Nat) :
    Option (Exchange (Fault CacheError)) :=
  match c.workers[w]? with
  | some (.running (.ask r _)) => some ⟨r, (env.answer r c.state).1⟩
  | _ => none

/-- The requests of the workers, each with the number of its worker. -/
def log (env : Environment σ) (c : Crew σ α) : List Nat → List (Nat × Exchange (Fault CacheError))
  | [] => []
  | w :: ws => ((c.exchange? env w).map fun x => (w, x)).toList ++ log env (c.step env w) ws

def own (w : Nat) (xs : List (Nat × Exchange (Fault CacheError))) :
    List (Exchange (Fault CacheError)) :=
  (xs.filter fun x => x.1 = w).map Prod.snd

def Ended (c : Crew σ α) (w : Nat) (result : Except (Fault WorkError) α) : Prop :=
  c.workers[w]? = some (.ended result)

theorem own_append (w : Nat) (xs ys : List (Nat × Exchange (Fault CacheError))) :
    own w (xs ++ ys) = own w xs ++ own w ys := by
  rw [own, List.filter_append, List.map_append]
  rfl

theorem mem_own {w : Nat} {x : Exchange (Fault CacheError)}
    {xs : List (Nat × Exchange (Fault CacheError))} : x ∈ own w xs ↔ (w, x) ∈ xs := by
  simp only [own, List.mem_map, List.mem_filter, decide_eq_true_eq]
  constructor
  · rintro ⟨⟨w', x'⟩, ⟨hmem, rfl⟩, rfl⟩
    exact hmem
  · exact fun hmem => ⟨(w, x), ⟨hmem, rfl⟩, rfl⟩

/-! ## Steps -/

theorem step_done {c : Crew σ α} {w : Nat} {a : Except (Fault WorkError) α}
    (hw : c.workers[w]? = some (.running (.done a))) : c.step env w = c.conclude w a := by
  rw [step, hw]

theorem step_ask {c : Crew σ α} {w : Nat} {r : Request}
    {next : Response r → Program (Except (Fault WorkError) α)}
    (hw : c.workers[w]? = some (.running (.ask r next))) :
    c.step env w = { c with
      workers := c.workers.set w (.running (next (env.answer r c.state).1))
      state := (env.answer r c.state).2 } := by
  rw [step, hw]
  rfl

theorem step_draw {c : Crew σ α} {w : Nat} {d : Draw}
    {next : d.Answer → Program (Except (Fault WorkError) α)}
    (hw : c.workers[w]? = some (.running (.draw d next))) :
    c.step env w = { c with
      workers := c.workers.set w (.running (next (env.draw d c.state).1))
      state := (env.draw d c.state).2 } := by
  rw [step, hw]
  rfl

/-- What each worker has asked is the first part of a run of its task. -/
structure Follows (task : Nat → Work α) (c : Crew σ α)
    (xs : List (Nat × Exchange (Fault CacheError))) : Prop where
  running : ∀ w p, c.workers[w]? = some (.running p) → ∀ ys a, p.Runs ys a →
    (task w).Runs (own w xs ++ ys) a
  ended : ∀ w a, c.Ended w a → (task w).Runs (own w xs) a
  absent : ∀ w, c.workers[w]? = none → own w xs = []

namespace Follows

variable {task : Nat → Work α} {c : Crew σ α} {xs : List (Nat × Exchange (Fault CacheError))}

theorem ofTasks (threadName : String) (workers : Nat) (task : Nat → Work α) (s : σ) :
    Follows task (Crew.ofTasks threadName workers task s) [] := by
  refine ⟨fun w p hw ys a h => ?_, fun w a hw => ?_, fun w _ => rfl⟩
  · simp only [Crew.ofTasks, List.getElem?_map, Option.map_eq_some_iff] at hw
    obtain ⟨w', hw', hp⟩ := hw
    obtain ⟨hlt, heq⟩ := List.getElem?_eq_some_iff.1 hw'
    rw [List.getElem_range] at heq
    cases heq
    cases hp
    exact h
  · simp only [Ended, Crew.ofTasks, List.getElem?_map, Option.map_eq_some_iff] at hw
    obtain ⟨_, -, h⟩ := hw
    cases h

theorem set (h : Follows task c xs) {w : Nat} {p : Program (Except (Fault WorkError) α)}
    (hw : c.workers[w]? = some (.running p)) {c' : Crew σ α} {x : Worker α}
    (hworkers : c'.workers = c.workers.set w x) {new : Option (Exchange (Fault CacheError))}
    (hrunning : ∀ q, x = .running q → ∀ ys a, q.Runs ys a → p.Runs (new.toList ++ ys) a)
    (hended : ∀ a, x = .ended a → p.Runs new.toList a) :
    Follows task c' (xs ++ (new.map fun y => (w, y)).toList) := by
  have hlt := (List.getElem?_eq_some_iff.1 hw).1
  have hself : own w (new.map fun y => (w, y)).toList = new.toList := by
    cases new <;> simp [own]
  have hother : ∀ w', w' ≠ w → own w' (new.map fun y => (w, y)).toList = [] := by
    intro w' hne
    cases new <;> simp [own, hne.symm]
  refine ⟨fun w' q hw' ys a hq => ?_, fun w' a hw' => ?_, fun w' hw' => ?_⟩
  · rw [hworkers] at hw'
    rw [own_append]
    by_cases hww : w' = w
    · subst w'
      rw [List.getElem?_set_self hlt] at hw'
      rw [hself, List.append_assoc]
      exact h.running w p hw _ a (hrunning q (Option.some.inj hw') ys a hq)
    · rw [List.getElem?_set_ne (Ne.symm hww)] at hw'
      rw [hother w' hww, List.append_nil]
      exact h.running w' q hw' ys a hq
  · rw [Ended, hworkers] at hw'
    rw [own_append]
    by_cases hww : w' = w
    · subst w'
      rw [List.getElem?_set_self hlt] at hw'
      rw [hself]
      exact h.running w p hw _ a (hended a (Option.some.inj hw'))
    · rw [List.getElem?_set_ne (Ne.symm hww)] at hw'
      rw [hother w' hww, List.append_nil]
      exact h.ended w' a hw'
  · rw [hworkers, List.getElem?_eq_none_iff, List.length_set, ← List.getElem?_eq_none_iff] at hw'
    rw [own_append, h.absent w' hw', hother w' ?_]
    · rfl
    · rintro rfl
      cases hw.symm.trans hw'

theorem step (henv : env.Admits) (h : Follows task c xs) (w : Nat) :
    Follows task (c.step env w) (xs ++ ((c.exchange? env w).map fun y => (w, y)).toList) := by
  cases hw : c.workers[w]? with
  | none =>
      have hstay : c.step env w = c := by rw [Crew.step, hw]
      have hnone : c.exchange? env w = none := by rw [exchange?, hw]
      rw [hstay, hnone, Option.map_none, Option.toList_none, List.append_nil]
      exact h
  | some x =>
      cases x with
      | ended a =>
          have hstay : c.step env w = c := by rw [Crew.step, hw]
          have hnone : c.exchange? env w = none := by rw [exchange?, hw]
          rw [hstay, hnone, Option.map_none, Option.toList_none, List.append_nil]
          exact h
      | running p =>
          cases p with
          | done a =>
              have hnone : c.exchange? env w = none := by rw [exchange?, hw]
              rw [step_done hw, hnone]
              refine h.set hw rfl nofun fun b hb => ?_
              cases hb
              exact ⟨rfl, rfl⟩
          | draw d next =>
              have hnone : c.exchange? env w = none := by rw [exchange?, hw]
              rw [step_draw hw, hnone]
              refine h.set hw rfl (fun q hq ys a hys => ?_) nofun
              cases hq
              exact ⟨_, henv d c.state, hys⟩
          | ask r next =>
              have hsome : c.exchange? env w = some ⟨r, (env.answer r c.state).1⟩ := by
                rw [exchange?, hw]
              rw [step_ask hw, hsome]
              refine h.set hw rfl (fun q hq ys a hys => ?_) nofun
              cases hq
              exact ⟨_, ys, rfl, hys⟩

theorem run (henv : env.Admits) (h : Follows task c xs) (ws : List Nat) :
    Follows task (c.run env ws) (xs ++ c.log env ws) := by
  induction ws generalizing c xs with
  | nil => simpa [Crew.run, log] using h
  | cons w ws ih =>
      rw [log, ← List.append_assoc]
      exact ih (h.step henv w)

/-- The requests of a worker can be followed by others to a run of its task. -/
theorem exists_runs (h : Follows task c xs) {w : Nat} {x : Exchange (Fault CacheError)}
    (hx : (w, x) ∈ xs) :
    ∃ ys a, (task w).Runs (own w xs ++ ys) a ∧ ∀ y ∈ ys, y.Succeeds := by
  cases hw : c.workers[w]? with
  | none =>
      have hmem := mem_own.2 hx
      rw [h.absent w hw] at hmem
      cases hmem
  | some x =>
      cases x with
      | ended a => exact ⟨[], a, by rw [List.append_nil]; exact h.ended w a hw, List.forall_mem_nil _⟩
      | running p =>
          obtain ⟨ys, a, hp, hys⟩ := p.exists_runs
          exact ⟨ys, a, h.running w p hw ys a hp, hys⟩

end Follows

theorem follows_run (henv : env.Admits) (threadName : String) (workers : Nat) (task : Nat → Work α)
    (s : σ) (ws : List Nat) : Follows task ((Crew.ofTasks threadName workers task s).run env ws)
      ((Crew.ofTasks threadName workers task s).log env ws) :=
  (Follows.ofTasks threadName workers task s).run henv ws

/-! ## One worker after the other -/

/-- A request or draw of a worker is the first of its remaining steps. -/
theorem finishWorker_step {c : Crew σ α} {w : Nat} {p : Program (Except (Fault WorkError) α)}
    (hw : c.workers[w]? = some (.running p)) (hp : ∀ a, p ≠ .done a) :
    (c.step env w).finishWorker env w = c.finishWorker env w := by
  have hlt := (List.getElem?_eq_some_iff.1 hw).1
  cases p with
  | done a => exact (hp a rfl).elim
  | ask r next =>
      rw [step_ask hw, finishWorker, finishWorker, List.getElem?_set_self hlt, hw]
      simp only [conclude, List.set_set, noted, Program.run, failure]
  | draw d next =>
      rw [step_draw hw, finishWorker, finishWorker, List.getElem?_set_self hlt, hw]
      simp only [conclude, List.set_set, noted, Program.run, failure]

variable (env) in
theorem exists_run_eq_finishWorker (c : Crew σ α) (w : Nat) :
    ∃ ws, c.run env ws = c.finishWorker env w := by
  cases hw : c.workers[w]? with
  | none => exact ⟨[], by rw [finishWorker, hw]; rfl⟩
  | some x =>
      cases x with
      | ended a => exact ⟨[], by rw [finishWorker, hw]; rfl⟩
      | running p =>
          induction p generalizing c with
          | done a => exact ⟨[w], by rw [finishWorker, hw]; exact step_done hw⟩
          | ask r next ih =>
              have hnext : (c.step env w).workers[w]? =
                  some (.running (next (env.answer r c.state).1)) := by
                rw [step_ask hw]
                exact List.getElem?_set_self (List.getElem?_eq_some_iff.1 hw).1
              obtain ⟨ws, hws⟩ := ih _ (c.step env w) hnext
              exact ⟨w :: ws, hws.trans (finishWorker_step hw nofun)⟩
          | draw d next ih =>
              have hnext : (c.step env w).workers[w]? =
                  some (.running (next (env.draw d c.state).1)) := by
                rw [step_draw hw]
                exact List.getElem?_set_self (List.getElem?_eq_some_iff.1 hw).1
              obtain ⟨ws, hws⟩ := ih _ (c.step env w) hnext
              exact ⟨w :: ws, hws.trans (finishWorker_step hw nofun)⟩

variable (env) in
/-- To finish one worker after the other is one of the schedules. -/
theorem exists_run_eq_finish (c : Crew σ α) : ∃ ws, c.run env ws = c.finish env := by
  rw [finish]
  induction List.range c.workers.length generalizing c with
  | nil => exact ⟨[], rfl⟩
  | cons w rest ih =>
      obtain ⟨ws, hws⟩ := exists_run_eq_finishWorker env c w
      obtain ⟨ws', hws'⟩ := ih (c.finishWorker env w)
      exact ⟨ws ++ ws', by rw [run_append, hws]; exact hws'⟩

/-! ## Crews on a cache -/

/-- Where the random numbers of a crew come from, with a state of its own. -/
abbrev Source (δ : Type) := (d : Draw) → δ → d.Answer × δ

/-- A service whose callers draw from a source. -/
def withSource {σ δ : Type} (service : Service σ) (source : Source δ) : Environment (σ × δ) where
  answer r s :=
    let (x, c) := service r s.1
    (x, (c, s.2))
  draw d s :=
    let (x, g) := source d s.2
    (x, (s.1, g))

/-- An exchange with a cache, as its callers see it. -/
def seen (x : Exchange CacheError) : Exchange (Fault CacheError) :=
  ⟨x.request, x.response.mapError .error⟩

def requests (xs : List (Nat × Exchange (Fault CacheError))) : List Request :=
  xs.map fun x => x.2.request

variable {δ : Type} {source : Source δ}

theorem cache_step_of_none {c : Crew (Cache × δ) α} {w : Nat}
    (h : c.exchange? (withSource Cache.service source) w = none) :
    (c.step (withSource Cache.service source) w).state.1 = c.state.1 := by
  unfold exchange? at h
  split at h
  · cases h
  · rename_i hask
    unfold step
    split
    · rfl
    · rename_i p hdone hw
      cases p with
      | done a => exact (hdone a rfl).elim
      | ask r next => exact (hask r next hw).elim
      | draw d next => rfl
    · rfl

theorem cache_step_of_some {c : Crew (Cache × δ) α} {w : Nat} {x : Exchange (Fault CacheError)}
    (h : c.exchange? (withSource Cache.service source) w = some x) :
    x = seen ⟨x.request, (c.state.1.step x.request).1⟩ ∧
      (c.step (withSource Cache.service source) w).state.1 = (c.state.1.step x.request).2 := by
  unfold exchange? at h
  split at h
  · rename_i hw
    cases h
    rw [step_ask hw]
    exact ⟨rfl, rfl⟩
  · cases h

variable (source) in
/-- What the crew does to the cache is the run of its requests. -/
theorem log_eq_run (c : Crew (Cache × δ) α) (ws : List Nat) :
    (c.log (withSource Cache.service source) ws).map Prod.snd =
      (c.state.1.run (requests (c.log (withSource Cache.service source) ws))).1.map seen ∧
    (c.run (withSource Cache.service source) ws).state.1 =
      (c.state.1.run (requests (c.log (withSource Cache.service source) ws))).2 := by
  induction ws generalizing c with
  | nil => exact ⟨rfl, rfl⟩
  | cons w ws ih =>
      obtain ⟨hlog, hstate⟩ := ih (c.step (withSource Cache.service source) w)
      rw [log]
      cases hx : c.exchange? (withSource Cache.service source) w with
      | none =>
          rw [cache_step_of_none hx] at hlog hstate
          exact ⟨hlog, hstate⟩
      | some x =>
          obtain ⟨hresponse, hstep⟩ := cache_step_of_some hx
          rw [hstep] at hlog hstate
          refine ⟨?_, hstate⟩
          simp only [Option.map_some, Option.toList_some, List.singleton_append, List.map_cons,
            requests, Cache.run] at hlog ⊢
          rw [hlog, ← hresponse]

theorem getElem?_requests {xs : List (Nat × Exchange (Fault CacheError))} {n w : Nat}
    {x : Exchange (Fault CacheError)} (hx : xs[n]? = some (w, x)) :
    (requests xs)[n]? = some x.request := by
  rw [requests, List.getElem?_map, hx]
  rfl

/-- An entry of the log is a request of the run with its answer. -/
theorem getElem?_log {c : Crew (Cache × δ) α} {ws : List Nat} {i w : Nat}
    {x : Exchange (Fault CacheError)}
    (hx : (c.log (withSource Cache.service source) ws)[i]? = some (w, x)) :
    (requests (c.log (withSource Cache.service source) ws))[i]? = some x.request ∧
      x = seen ⟨x.request, ((c.state.1.before
        (requests (c.log (withSource Cache.service source) ws)) i).step x.request).1⟩ := by
  have hr := getElem?_requests hx
  refine ⟨hr, ?_⟩
  have hlog := congrArg (fun xs => xs[i]?) (log_eq_run source c ws).1
  simp only [List.getElem?_map, hx, Cache.getElem?_run, hr, Option.map_some, Option.some.injEq]
    at hlog
  exact hlog

end Crew

end CacheBench
