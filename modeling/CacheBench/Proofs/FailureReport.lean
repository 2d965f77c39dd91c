import CacheBench.Proofs.FanOutSteps

/-!
# The failures of a fan-out

Whatever the order of turns, a fan-out can be brought to its end, and its caller then returns one
failure for each worker that failed or panicked, in the order of workers. The list is told by how
the workers ended, so that it is the same for all orders of turns if their ends are. One of these
orders is to run one worker after the other, which is what `runParallel` does.
-/

namespace CacheBench

namespace FanOut

variable {σ α : Type} {env : Environment σ} {workers : Nat} {task : Nat → Work α} {f : FanOut σ α}

/-! ## The end can be reached -/

theorem Ended.run {w : Nat} {a : Except (Fault WorkError) α} (h : f.Ended w a) (ts : List Turn) :
    (f.run env workers task ts).Ended w a := by
  induction ts generalizing f with
  | nil => exact h
  | cons t ts ih => exact ih ((move_step f t).ended h)

theorem run_worker (f : FanOut σ α) (ws : List Nat) :
    (f.run env workers task (ws.map .worker)).threads.length = f.threads.length ∧
      (f.run env workers task (ws.map .worker)).joined = f.joined := by
  induction ws generalizing f with
  | nil => exact ⟨rfl, rfl⟩
  | cons w ws ih =>
      have hmove : Move env workers task f (.worker w) _ _ (f.step env workers task (.worker w)) :=
        move_step f (.worker w)
      obtain ⟨hlength, hjoined⟩ := hmove.of_worker
      obtain ⟨hlength', hjoined'⟩ := ih (f.step env workers task (.worker w))
      exact ⟨hlength'.trans hlength, hjoined'.trans hjoined⟩

variable (env workers task) in
theorem exists_ended_of_running {w : Nat} {p : Program (Except (Fault WorkError) α)}
    (hw : f.threads[w]? = some (some (.running p))) :
    ∃ ws a, (f.run env workers task (List.map .worker ws)).Ended w a := by
  have hlt := (List.getElem?_eq_some_iff.1 hw).1
  induction p generalizing f with
  | done a =>
      refine ⟨[w], a, ?_⟩
      simp only [List.map_singleton, run, List.foldl_cons, List.foldl_nil, step, advance, hw]
      exact List.getElem?_set_self hlt
  | ask r next ih =>
      have hnext : (f.step env workers task (.worker w)).threads[w]? =
          some (some (.running (next (env.answer r f.state).1))) := by
        simp only [step, advance, hw]
        exact List.getElem?_set_self hlt
      obtain ⟨ws, a, ha⟩ := ih _ hnext (List.getElem?_eq_some_iff.1 hnext).1
      exact ⟨w :: ws, a, ha⟩
  | draw d next ih =>
      have hnext : (f.step env workers task (.worker w)).threads[w]? =
          some (some (.running (next (env.draw d f.state).1))) := by
        simp only [step, advance, hw]
        exact List.getElem?_set_self hlt
      obtain ⟨ws, a, ha⟩ := ih _ hnext (List.getElem?_eq_some_iff.1 hnext).1
      exact ⟨w :: ws, a, ha⟩

variable (env workers task) in
theorem exists_ended {w : Nat} (hw : w < f.threads.length) :
    ∃ ws a, (f.run env workers task (List.map .worker ws)).Ended w a := by
  obtain ⟨x, hx⟩ : ∃ x, f.threads[w]? = some x := ⟨_, List.getElem?_eq_getElem hw⟩
  rcases x with _ | p | a
  · have hcalled : (f.step env workers task (.worker w)).threads[w]? =
        some (some (.running (task w).run)) := by
      simp only [step, advance, hx]
      exact List.getElem?_set_self hw
    obtain ⟨ws, a, ha⟩ := exists_ended_of_running env workers task hcalled
    exact ⟨w :: ws, a, ha⟩
  · exact exists_ended_of_running env workers task hx
  · exact ⟨[], a, hx⟩

variable (env workers task) in
theorem exists_all_ended (f : FanOut σ α) {n : Nat} (hn : n ≤ f.threads.length) :
    ∃ ws, ∀ w < n, ∃ a, (f.run env workers task (List.map .worker ws)).Ended w a := by
  induction n with
  | zero => exact ⟨[], fun w hw => absurd hw (Nat.not_lt_zero w)⟩
  | succ n ih =>
      obtain ⟨ws, hws⟩ := ih (Nat.le_of_succ_le hn)
      have hlt : n < (f.run env workers task (ws.map .worker)).threads.length :=
        hn.trans_eq (run_worker f ws).1.symm
      obtain ⟨ws', a, ha⟩ := exists_ended env workers task hlt
      refine ⟨ws ++ ws', fun w hw => ?_⟩
      rw [List.map_append, run_append]
      rcases Nat.lt_succ_iff_lt_or_eq.1 hw with hw | rfl
      · obtain ⟨b, hb⟩ := hws w hw
        exact ⟨b, hb.run _⟩
      · exact ⟨a, ha⟩

theorem call_of_lt (h : f.threads.length < workers) :
    f.call workers = { f with threads := f.threads ++ [none] } := if_pos h

theorem call_of_ended (h : f.threads.length = workers) {a : Except (Fault WorkError) α}
    (ha : f.Ended f.joined a) : f.call workers =
      { f with
        joined := f.joined + 1
        failures := f.failures ++ (collected? f.threadName f.joined a).toList } := by
  rw [call, if_neg (Nat.not_lt.2 h.ge), ha]

variable (env task) in
theorem exists_started (h : f.threads.length ≤ workers) :
    ∃ ts, (f.run env workers task ts).threads.length = workers := by
  induction hleft : workers - f.threads.length generalizing f with
  | zero => exact ⟨[], Nat.le_antisymm h (Nat.le_of_sub_eq_zero hleft)⟩
  | succ left ih =>
      have hlt : f.threads.length < workers := by omega
      obtain ⟨ts, hts⟩ := ih (f := f.call workers)
        (by rw [call_of_lt hlt, List.length_append]; exact hlt)
        (by rw [call_of_lt hlt, List.length_append, List.length_singleton]; omega)
      exact ⟨.caller :: ts, hts⟩

variable (env task) in
theorem exists_joined (h : f.threads.length = workers) (hjoined : f.joined ≤ workers)
    (hended : ∀ w < workers, ∃ a, f.Ended w a) :
    ∃ ts, (f.run env workers task ts).joined = workers := by
  induction hleft : workers - f.joined generalizing f with
  | zero => exact ⟨[], Nat.le_antisymm hjoined (Nat.le_of_sub_eq_zero hleft)⟩
  | succ left ih =>
      have hlt : f.joined < workers := by omega
      obtain ⟨a, ha⟩ := hended _ hlt
      have hcall := call_of_ended h ha
      have hleft' : workers - (f.joined + 1) = left := by omega
      obtain ⟨ts, hts⟩ := ih (f := f.call workers) (by rw [hcall]; exact h)
        (by rw [hcall]; exact hlt) (by rw [hcall]; exact hended) (by rw [hcall]; exact hleft')
      exact ⟨.caller :: ts, hts⟩

variable (env task) in
/-- No order of turns leads to where the caller could not return any more. -/
theorem Tally.exists_returned (h : f.Tally workers) :
    ∃ ts report, (f.run env workers task ts).returned? workers = some report := by
  obtain ⟨ts, hts⟩ := exists_started env task h.length_le
  obtain ⟨ws, hws⟩ := exists_all_ended env workers task (f.run env workers task ts) hts.ge
  have htally : ((f.run env workers task ts).run env workers task (ws.map .worker)).Tally workers :=
    (h.run ts).run _
  obtain ⟨ts', hts'⟩ := exists_joined env task ((run_worker _ ws).1.trans hts) htally.joined_le hws
  have hjoined : (f.run env workers task (ts ++ ws.map .worker ++ ts')).joined = workers := by
    rw [run_append, run_append]
    exact hts'
  exact ⟨_, _, if_pos hjoined⟩

/-! ## What is returned -/

/-- What the caller returns is told by how the workers ended. -/
theorem Tally.returned (h : f.Tally workers) {report : List WorkerFailure}
    (hreport : f.returned? workers = some report) :
    (∀ w < workers, ∃ a, f.Ended w a) ∧
      report.Pairwise (fun g g' => g.worker < g'.worker) ∧
      ∀ g, g ∈ report ↔ ∃ w a, f.Ended w a ∧ failure? f.threadName w a = some g := by
  unfold returned? at hreport
  split at hreport
  · rename_i hjoined
    cases hreport
    refine ⟨fun w hw => h.joined w (hjoined.symm ▸ hw), ?ascending, fun g => ?mem⟩
    case ascending =>
      have hperm : ((f.failures.mergeSort fun g g' => g.worker ≤ g'.worker).map
          WorkerFailure.worker).Perm (f.failures.map WorkerFailure.worker) :=
        (List.mergeSort_perm _ _).map _
      have hnodup := List.pairwise_map.1 (hperm.nodup_iff.2 h.nodup)
      have hsorted : (f.failures.mergeSort fun g g' => g.worker ≤ g'.worker).Pairwise
          fun g g' => decide (g.worker ≤ g'.worker) = true := List.pairwise_mergeSort
        (fun g g' g'' hle hle' => by simp only [decide_eq_true_eq] at *; exact hle.trans hle')
        (fun g g' => by simpa using Nat.le_total g.worker g'.worker) f.failures
      exact hsorted.imp₂ (fun g g' hle hne => Nat.lt_of_le_of_ne (of_decide_eq_true hle) hne) hnodup
    case mem =>
      rw [List.mem_mergeSort, h.mem_failures]
      simp only [failure?_eq_some_iff]
      refine exists_congr fun w => exists_congr fun a => and_congr_right fun ha => ?_
      have hlt : w < f.joined := (ha.lt_length.trans_le h.length_le).trans_eq hjoined.symm
      rw [and_iff_right hlt]
  · cases hreport

def failuresOf (threadName : String) (workers : Nat)
    (ends : Nat → Except (Fault WorkError) α) : List WorkerFailure :=
  (List.range workers).filterMap fun w => failure? threadName w (ends w)

theorem Tally.returned_eq (h : f.Tally workers) {report : List WorkerFailure}
    (hreport : f.returned? workers = some report) {ends : Nat → Except (Fault WorkError) α}
    (hends : ∀ w a, f.Ended w a → a = ends w) :
    report = failuresOf f.threadName workers ends := by
  obtain ⟨hended, hascending, hmem⟩ := h.returned hreport
  have hfailures : (failuresOf f.threadName workers ends).Pairwise
      fun g g' => g.worker < g'.worker := by
    refine List.pairwise_lt_range.filterMap _ fun w w' hlt g hg g' hg' => ?_
    rwa [worker_of_failure? hg, worker_of_failure? hg']
  have hiff (g : WorkerFailure) : g ∈ report ↔ g ∈ failuresOf f.threadName workers ends := by
    rw [hmem, failuresOf, List.mem_filterMap]
    constructor
    · rintro ⟨w, a, ha, hg⟩
      rw [hends w a ha] at hg
      exact ⟨w, List.mem_range.2 (ha.lt_length.trans_le h.length_le), hg⟩
    · rintro ⟨w, hw, hg⟩
      obtain ⟨a, ha⟩ := hended w (List.mem_range.1 hw)
      exact ⟨w, a, ha, by rwa [hends w a ha]⟩
  have hperm : report.Perm (failuresOf f.threadName workers ends) :=
    (List.perm_ext_iff_of_nodup (hascending.imp fun hlt heq => absurd (heq ▸ hlt) (lt_irrefl _))
      (hfailures.imp fun hlt heq => absurd (heq ▸ hlt) (lt_irrefl _))).2 hiff
  exact hperm.eq_of_pairwise (fun _ _ _ _ hlt hlt' => absurd hlt (Nat.lt_asymm hlt')) hascending
    hfailures

/-! ## One worker after the other -/

/-- A crew whose threads are all there and have called their tasks, before any is joined. -/
def ofCrew (c : Crew σ α) : FanOut σ α where
  threadName := c.threadName
  threads := c.workers.map some
  failures := c.errors
  state := c.state

theorem step_ofCrew (c : Crew σ α) (w : Nat) :
    (ofCrew c).step env workers task (.worker w) = ofCrew (c.step env w) := by
  simp only [step, advance, Crew.step, ofCrew, List.getElem?_map]
  cases c.workers[w]? with
  | none => rfl
  | some x =>
      cases x with
      | ended a => rfl
      | running p =>
          cases p with
          | done a =>
              rcases a with (e | text) | a <;>
                simp [Crew.conclude, Crew.noted, Crew.failure, noted?]
          | ask r next => simp [Program.step]
          | draw d next => simp [Program.step]

theorem run_ofCrew (c : Crew σ α) (ws : List Nat) :
    (ofCrew c).run env workers task (ws.map .worker) = ofCrew (c.run env ws) := by
  induction ws generalizing c with
  | nil => rfl
  | cons w ws ih =>
      refine Eq.trans ?_ (ih (c.step env w))
      rw [← step_ofCrew]
      rfl

variable (env task) in
/-- The caller can start all threads, each of which calls its task at once. -/
theorem exists_run_ofTasks (threadName : String) (s : σ) {n : Nat} (hn : n ≤ workers) :
    ∃ ts, (start threadName s).run env workers task ts =
      ofCrew (Crew.ofTasks threadName n task s) := by
  induction n with
  | zero => exact ⟨[], rfl⟩
  | succ n ih =>
      obtain ⟨ts, hts⟩ := ih (Nat.le_of_succ_le hn)
      have hlength : (ofCrew (Crew.ofTasks threadName n task s)).threads.length = n := by
        simp [ofCrew, Crew.ofTasks]
      refine ⟨ts ++ [.caller, .worker n], ?_⟩
      rw [run_append, hts, run, List.foldl_cons, List.foldl_cons, List.foldl_nil,
        step, call_of_lt (hlength.trans_lt hn)]
      simp [step, advance, ofCrew, Crew.ofTasks, List.range_succ]

end FanOut

namespace Crew

variable {σ α : Type} (env : Environment σ)

theorem length_finishWorker (c : Crew σ α) (w : Nat) :
    (c.finishWorker env w).workers.length = c.workers.length := by
  unfold finishWorker
  split
  · exact List.length_set ..
  · rfl

theorem length_finish (c : Crew σ α) : (c.finish env).workers.length = c.workers.length := by
  rw [finish]
  induction List.range c.workers.length generalizing c with
  | nil => rfl
  | cons w ws ih => exact (ih (c.finishWorker env w)).trans (length_finishWorker env c w)

theorem ended_finishWorker {c : Crew σ α} {w : Nat} (hw : w < c.workers.length) :
    ∃ a, (c.finishWorker env w).Ended w a := by
  cases hx : c.workers[w]? with
  | none => exact absurd hw (Nat.not_lt.2 (List.getElem?_eq_none_iff.1 hx))
  | some x =>
      cases x with
      | running p =>
          rw [finishWorker, hx]
          exact ⟨_, List.getElem?_set_self hw⟩
      | ended a =>
          rw [finishWorker, hx]
          exact ⟨a, hx⟩

theorem Ended.finishWorker {c : Crew σ α} {w : Nat} {a : Except (Fault WorkError) α}
    (h : c.Ended w a) (w' : Nat) : (c.finishWorker env w').Ended w a := by
  unfold Crew.finishWorker
  split
  · rename_i p hw
    have hne : w' ≠ w := by
      rintro rfl
      cases hw.symm.trans h
    exact (List.getElem?_set_ne hne).trans h
  · exact h

/-- All workers have ended once each has made its remaining steps. -/
theorem ended_finish (c : Crew σ α) {w : Nat} (hw : w < c.workers.length) :
    ∃ a, (c.finish env).Ended w a := by
  have hfold : ∀ (ws : List Nat) (c : Crew σ α), w < c.workers.length →
      (w ∈ ws ∨ ∃ a, c.Ended w a) → ∃ a, (ws.foldl (Crew.finishWorker env) c).Ended w a := by
    intro ws
    induction ws with
    | nil => exact fun c _ h => h.resolve_left List.not_mem_nil
    | cons w' ws ih =>
        intro c hw h
        refine ih _ ((length_finishWorker env c w').symm ▸ hw) ?_
        rcases h with hmem | ⟨a, ha⟩
        · rcases List.mem_cons.1 hmem with rfl | hmem
          · exact .inr (ended_finishWorker env hw)
          · exact .inl hmem
        · exact .inr ⟨a, ha.finishWorker env w'⟩
  exact hfold _ c hw (.inl (List.mem_range.2 hw))

end Crew

namespace FanOut

variable {σ α : Type} {env : Environment σ} {workers : Nat} {task : Nat → Work α}

theorem panics_take_succ {c : Crew σ α} {n : Nat} {a : Except (Fault WorkError) α}
    (ha : c.Ended n a) : Crew.panics { c with workers := c.workers.take (n + 1) } =
      Crew.panics { c with workers := c.workers.take n } ++
        (collected? c.threadName n a).toList := by
  have hlength : (c.workers.take n).length = n :=
    List.length_take_of_le (List.getElem?_eq_some_iff.1 ha).1.le
  rw [Crew.panics, Crew.panics, List.take_add_one, ha, Option.toList_some, List.zipIdx_append,
    List.filterMap_append, hlength]
  rcases a with (e | text) | a <;> simp [collected?, Crew.failure]

variable (env task) in
/-- The caller can join the first threads of a crew whose workers have all ended. -/
theorem exists_run_joined {c : Crew σ α} (hlength : c.workers.length = workers)
    (hended : ∀ w < workers, ∃ a, c.Ended w a) {n : Nat} (hn : n ≤ workers) :
    ∃ ts, (ofCrew c).run env workers task ts =
      { ofCrew c with
        joined := n
        failures := c.errors ++ Crew.panics { c with workers := c.workers.take n } } := by
  induction n with
  | zero => exact ⟨[], by simp [run, ofCrew, Crew.panics]⟩
  | succ n ih =>
      obtain ⟨ts, hts⟩ := ih (Nat.le_of_succ_le hn)
      obtain ⟨a, ha⟩ := hended n hn
      have hthread : (ofCrew c).Ended n a := by
        rw [Ended, ofCrew, List.getElem?_map, ha]
        rfl
      refine ⟨ts ++ [.caller], ?_⟩
      rw [run_append, hts, panics_take_succ ha, ← List.append_assoc]
      exact call_of_ended (f := { ofCrew c with joined := n, failures := _ })
        ((List.length_map _).trans hlength) hthread

variable (env task) in
/-- To run one worker after the other is one of the orders of turns. -/
theorem exists_run_eq_runParallel (threadName : String) (s : σ) : ∃ ts,
    ((start threadName s).run env workers task ts).returned? workers =
        some (runParallel env threadName workers task s).1 ∧
      ((start threadName s).run env workers task ts).state =
        (runParallel env threadName workers task s).2 := by
  obtain ⟨ts, hts⟩ := exists_run_ofTasks env task threadName s (Nat.le_refl workers)
  obtain ⟨ws, hws⟩ := Crew.exists_run_eq_finish env (Crew.ofTasks threadName workers task s)
  set c := (Crew.ofTasks threadName workers task s).finish env with hc
  have hlength : (Crew.ofTasks threadName workers task s).workers.length = workers := by
    simp [Crew.ofTasks]
  have hlength' : c.workers.length = workers := (Crew.length_finish env _).trans hlength
  have hended : ∀ w < workers, ∃ a, c.Ended w a := fun w hw =>
    Crew.ended_finish env _ (hlength.symm ▸ hw)
  obtain ⟨ts', hts'⟩ := exists_run_joined env task hlength' hended (Nat.le_refl workers)
  refine ⟨ts ++ ws.map .worker ++ ts', ?_⟩
  rw [run_append, run_append, hts, run_ofCrew, hws, hts', returned?, if_pos rfl]
  rw [List.take_of_length_le hlength'.le]
  exact ⟨rfl, rfl⟩

/-! ## What the caller returns -/

abbrev after (env : Environment σ) (threadName : String) (workers : Nat) (task : Nat → Work α)
    (s : σ) (turns : List Turn) : FanOut σ α := (start threadName s).run env workers task turns

/-- What a fan-out has done when its caller returns `report`. -/
structure Collected (env : Environment σ) (threadName : String) (workers : Nat)
    (task : Nat → Work α) (s : σ) (turns : List Turn) (report : List WorkerFailure) : Prop where
  /-- The task is called once for each worker and for nothing else. -/
  calls : ((start threadName s).calls env workers task turns).Perm (List.range workers)
  /-- Each worker has ended, and what it asked is one run of its task. -/
  ended : ∀ w < workers, ∃ a, (after env threadName workers task s turns).Ended w a ∧
    (task w).RunsIn env (Crew.own w ((start threadName s).log env workers task turns)) a
  /-- There is one failure at most for each worker, in the order of workers. -/
  ascending : report.Pairwise fun g g' => g.worker < g'.worker
  /-- The failures are those of the workers that failed or panicked. -/
  mem_report : ∀ g, g ∈ report ↔ ∃ w < workers, ∃ a,
    (after env threadName workers task s turns).Ended w a ∧ failure? threadName w a = some g
  /-- If each task can end in one way only, the order of turns makes no difference. -/
  same : ∀ ends : Nat → Except (Fault WorkError) α,
    (∀ w < workers, ∀ xs a, (task w).RunsIn env xs a → a = ends w) →
      report = failuresOf threadName workers ends ∧
        report = (runParallel env threadName workers task s).1

section Returned

variable (env workers task) (threadName : String) (s : σ) (turns : List Turn)

theorem tracks_after : Tracks env task (after env threadName workers task s turns)
    ((start threadName s).calls env workers task turns)
    ((start threadName s).log env workers task turns) :=
  (Tracks.start threadName s).run turns

theorem tally_after : (after env threadName workers task s turns).Tally workers :=
  (Tally.start threadName s).run turns

theorem returned_eq_failuresOf {report : List WorkerFailure}
    (hreport : (after env threadName workers task s turns).returned? workers = some report)
    {ends : Nat → Except (Fault WorkError) α}
    (hends : ∀ w < workers, ∀ xs a, (task w).RunsIn env xs a → a = ends w) :
    report = failuresOf threadName workers ends := by
  have htally := tally_after env workers task threadName s turns
  have htracks := tracks_after env workers task threadName s turns
  have hends' : ∀ w a, (after env threadName workers task s turns).Ended w a → a = ends w :=
    fun w a ha => hends w (ha.lt_length.trans_le htally.length_le) _ a (htracks.ended w a ha)
  have hreturned := htally.returned_eq hreport hends'
  rwa [threadName_run] at hreturned

end Returned

/-- A fan-out ends, and its caller returns the failures of the workers once and in order. -/
theorem collected_run (env : Environment σ) (threadName : String) (workers : Nat)
    (task : Nat → Work α) (s : σ) (turns : List Turn) :
    (∃ later report,
      (after env threadName workers task s (turns ++ later)).returned? workers = some report) ∧
      ∀ report, (after env threadName workers task s turns).returned? workers = some report →
        Collected env threadName workers task s turns report := by
  have htracks := tracks_after env workers task threadName s turns
  have htally := tally_after env workers task threadName s turns
  constructor
  · obtain ⟨later, report, hreport⟩ := htally.exists_returned env task
    exact ⟨later, report, by rwa [after, run_append]⟩
  · intro report hreport
    obtain ⟨hended, hascending, hmem⟩ := htally.returned hreport
    refine ⟨?calls, fun w hw => ?ended, hascending, fun g => ?mem, fun ends hends => ?same⟩
    case calls =>
      refine (List.perm_ext_iff_of_nodup htracks.nodup List.nodup_range).2 fun w => ?_
      rw [htracks.mem_called, List.mem_range]
      constructor
      · rintro ⟨x, hx⟩
        exact (List.getElem?_eq_some_iff.1 hx).1.trans_le htally.length_le
      · intro hw
        obtain ⟨a, ha⟩ := hended w hw
        exact ⟨_, ha⟩
    case ended =>
      obtain ⟨a, ha⟩ := hended w hw
      exact ⟨a, ha, htracks.ended w a ha⟩
    case mem =>
      rw [hmem, threadName_run]
      refine exists_congr fun w => ?_
      constructor
      · rintro ⟨a, ha, hg⟩
        exact ⟨ha.lt_length.trans_le htally.length_le, a, ha, hg⟩
      · exact And.right
    case same =>
      have hfailures := returned_eq_failuresOf env workers task threadName s turns hreport hends
      obtain ⟨turns', hturns', -⟩ := exists_run_eq_runParallel env task threadName s
      have hfailures' :=
        returned_eq_failuresOf env workers task threadName s turns' hturns' hends
      exact ⟨hfailures, hfailures.trans hfailures'.symm⟩

/-- The first of three workers panics and the last one fails. -/
def mixedEnds (w : Nat) : Except (Fault WorkError) Unit :=
  if w = 0 then .error (.panic (some "boom"))
  else if w = 2 then .error (.error (.raised (.text "refused")))
  else .ok ()

/-- The last worker ends before the first, and the second after the first was joined. -/
def outOfOrder : List Turn := [.caller, .caller, .caller, .worker 2, .worker 2, .worker 0,
  .worker 0, .caller, .worker 1, .worker 1, .caller, .caller]

theorem collected_run_outOfOrder :
    let env := Service.withGenerator Cache.service
    let task := fun w => ExceptT.mk (.done (mixedEnds w))
    let s := (Cache.ofSettings { name := queryCache }, Generator.seeded 1)
    let report : List WorkerFailure := [⟨0, "populate-0", .text "worker panicked: boom"⟩,
      ⟨2, "populate-2", .text "refused"⟩]
    (after env "populate-" 3 task s outOfOrder).returned? 3 = some report ∧
      Collected env "populate-" 3 task s outOfOrder report := by
  intro env task s report
  have hjoined : (after env "populate-" 3 task s outOfOrder).joined = 3 := by decide +kernel
  have hcollected := (collected_run env "populate-" 3 task s outOfOrder).2 _ (if_pos hjoined)
  have hreport := (hcollected.same mixedEnds fun w _ xs a ha => ha.2).1
  have hfailures : failuresOf "populate-" 3 mixedEnds = report := by decide
  rw [hfailures] at hreport
  refine ⟨(if_pos hjoined).trans (congrArg some hreport), ?_⟩
  rwa [hreport] at hcollected

end FanOut

end CacheBench
