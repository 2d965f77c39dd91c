import CacheBench.Benchmark
import CacheBench.Proofs.NodeErrors

/-!
# What a set-up leaves

A benchmark is set up beside the nodes of a fleet, which may do anything while its own node waits
for the cluster (`Site`). `Attempt` lists how far a set-up can be. All failures but one leave the
benchmark as it was, and no member of it in any cluster (`SetUp.failed`). A failed population comes
after the node and the configuration were stored: the benchmark keeps both, and counts as set up
although nothing is prepared. Such a failure needs a server outside of the process or a thread that
cannot be started, so the theorems speak of any services behind the caches and of any host.
-/

namespace CacheBench

open Std (TreeMap)

/-! ## Refused threads -/

namespace Population

theorem unspawned?_eq_none {refused? : String → Option Report} {workers : Nat}
    (h : ∀ w < workers, refused? (threadName ++ toString w) = none) :
    unspawned? refused? workers = none := by
  rw [unspawned?, List.findSome?_eq_none_iff]
  intro w hw
  rw [h w (List.mem_range.1 hw)]
  rfl

end Population

/-- Where every thread can be started, a workload is prepared as it is set up on its cache alone. -/
theorem Workload.prepare_eq_setUp {σ : Type} {refused? : String → Option Report} {workers : Nat}
    (h : ∀ w < workers, refused? (Population.threadName ++ toString w) = none) (env : Environment σ)
    (config : Config) (w : Workload) (s : σ) :
    w.prepare refused? env config workers s =
      ((w.setUp env config workers s).1.mapError .error, (w.setUp env config workers s).2) := by
  unfold prepare setUp
  split
  · rw [populateOn, Population.unspawned?_eq_none h]
  · rfl

/-! ## A set-up among other nodes -/

/-- A benchmark that is being set up, in one world with the nodes of a fleet. -/
structure Site where
  bench : Benchmark
  progress : Progress
  fleet : Fleet

namespace Site

inductive Turn
  /-- The set-up goes on. -/
  | own
  /-- A call on a node of the fleet, or a change outside. -/
  | other (call : Fleet.Call)

def Turn.call? : Turn → Option Fleet.Call
  | .own => none
  | .other call => some call

def begin (host : Host) (config : Config) (b : Benchmark) (f : Fleet) : Site :=
  let (progress, world) := b.begin host config f.world
  { bench := b, progress, fleet := { f with world } }

def turn (answers : CacheHandle → Service World) (host : Host) (workers : Nat) (config : Config)
    (s : Site) : Turn → Site
  | .own =>
    match s.progress with
    | .started n =>
      let (progress, bench, world) := s.bench.goOn answers host workers config n s.fleet.world
      { bench, progress, fleet := { s.fleet with world } }
    | .ended _ => s
  | .other call => { s with fleet := s.fleet.step call }

def run (answers : CacheHandle → Service World) (host : Host) (workers : Nat) (config : Config)
    (s : Site) (turns : List Turn) : Site := turns.foldl (turn answers host workers config) s

end Site

theorem Progress.result?_eq_some_iff {p : Progress}
    {result : Except (Fault BenchmarkError) Unit} :
    p.result? = some result ↔ p = .ended result := by
  cases p <;> simp [Progress.result?]

theorem Fault.map_population_ne {e : BenchmarkError} (h : ∀ p, e ≠ .population p)
    (e' : Fault PopulationError) : e'.map .population ≠ .error e := by
  cases e' with
  | error p => exact fun he => h p (Fault.error.inj he).symm
  | panic text => nofun

namespace Benchmark

/-- A workload is prepared on a node only. -/
def Sound (b : Benchmark) : Prop := b.node = none → b.cache = none

theorem sound_tearDown (b : Benchmark) (w : World) : (b.tearDown w).1.Sound := fun _ => rfl

/-- To set up in one go is to begin and to take one turn. -/
theorem setUp_eq_turn (host : Host) (workers : Nat) (config : Config) (b : Benchmark) (f : Fleet) :
    let s := (Site.begin host config b f).turn (World.service host) host workers config .own
    b.setUp host workers config f.world = (s.progress, s.bench, s.fleet.world) := by
  unfold setUp Site.begin Site.turn
  dsimp only
  generalize b.begin host config f.world = begun
  obtain ⟨_ | _, w⟩ := begun
  · rfl
  · rfl

/-! ## How far a set-up can be -/

/-- How far a set-up can be that began beside the fleet `f₀`, after `calls` of others. The clusters
had the handles of `r₀` before the fleet was there. -/
inductive Attempt (r₀ : Registry) (b : Benchmark) (config : Config) (f₀ : Fleet)
    (calls : List Fleet.Call) : Site → Prop
  | refused (node : b.node.isSome) :
    Attempt r₀ b config f₀ calls ⟨b, .ended (.error (.error .alreadySetUp)), f₀.run calls⟩
  | waiting {n f} (node : b.node = none)
    (state : n.state = .ready ∨ n.state = .awaitingConvergence)
    (sound : Fleet.Sound r₀ (some n) f) (since : calls = [] → n.Since f₀.world f.world) :
    Attempt r₀ b config f₀ calls ⟨b, .started n, f⟩
  /-- All that was taken is given back. -/
  | undone {e f} (node : b.node = none) (other : ∀ p, e ≠ .population p)
    (waited : ∀ state, e ≠ .node (.notReady state)) (sound : Fleet.Sound r₀ none f)
    (restored : calls = [] → f₀.world.Restored f.world) :
    Attempt r₀ b config f₀ calls ⟨b, .ended (.error (.error e)), f⟩
  | unpopulated {e : Fault PopulationError} {n f} (node : b.node = none)
    (ready : n.state = .ready) :
    Attempt r₀ b config f₀ calls ⟨{ b with node := some n, config := some config },
      .ended (.error (e.map .population)), f⟩
  | prepared {n cache f} (node : b.node = none) (ready : n.state = .ready) :
    Attempt r₀ b config f₀ calls
      ⟨{ b with node := some n, config := some config, cache := some cache }, .ended (.ok ()), f⟩

variable {answers : CacheHandle → Service World} {host : Host} {workers : Nat} {config : Config}
variable {b : Benchmark} {r₀ : Registry} {f₀ : Fleet} {calls : List Fleet.Call} {s : Site}

theorem attempt_begin (hf : f₀.Sound r₀ none) :
    Attempt r₀ b config f₀ [] (Site.begin host config b f₀) := by
  unfold Site.begin begin
  cases hnode : b.node with
  | some n => exact .refused (by rw [hnode]; rfl)
  | none =>
      simp only [Option.isSome_none, Bool.false_eq_true, if_false]
      split
      · exact .undone hnode nofun nofun hf fun _ => .refl hf.coherent
      · generalize hstart : (Node.ofConfig config).start host config f₀.world = started
        obtain ⟨result, n, w⟩ := started
        obtain ⟨hsince, hrestored⟩ := Node.since_start hf.coherent hstart
        cases result with
        | error e =>
            have hback := hrestored nofun
            have hreason := Node.start_ne_notReady hstart
            exact .undone hnode nofun (fun state he => hreason state (BenchmarkError.node.inj he))
              (hf.change_own_none (.keeps hback.registry)) fun _ => hback
        | ok _ =>
            obtain ⟨hchange, hsettled⟩ :=
              Node.handleChange_start hf.coherent (.stopped rfl) hstart
            refine .waiting hnode (Node.state_of_start hf.coherent hstart)
              (hf.change_own hchange ?_) fun _ => hsince
            rintro _ ⟨⟩
            exact hsettled

theorem Attempt.other (h : Attempt r₀ b config f₀ calls s) (call : Fleet.Call) :
    Attempt r₀ b config f₀ (calls ++ [call]) { s with fleet := s.fleet.step call } := by
  have hsome : calls ++ [call] ≠ [] := List.append_ne_nil_of_right_ne_nil _ (List.cons_ne_nil _ _)
  cases h with
  | refused node =>
      have hrun : f₀.run (calls ++ [call]) = (f₀.run calls).step call := f₀.run_append calls [call]
      exact hrun ▸ .refused node
  | waiting node state sound =>
      exact .waiting node state (sound.step call) fun hnil => absurd hnil hsome
  | undone node other waited sound =>
      exact .undone node other waited (sound.step call) fun hnil => absurd hnil hsome
  | unpopulated node ready => exact .unpopulated node ready
  | prepared node ready => exact .prepared node ready

theorem attempt_prepareOver (f : Fleet) (n : Node) (w : World) (hnode : b.node = none)
    (hstate : n.state = .ready) (hsound : Fleet.Sound r₀ (some n) { f with world := w })
    (hsince : calls = [] → n.Since f₀.world w) :
    let prepared := b.prepareOver answers host workers config n w
    Attempt r₀ b config f₀ calls
      ⟨prepared.2.1, .ended prepared.1, { f with world := prepared.2.2 }⟩ := by
  unfold prepareOver
  generalize hcache : n.cache host w b.workload.cacheName = cached
  obtain ⟨result, n', w'⟩ := cached
  cases result with
  | error e =>
      have hn := hsound.settled none n rfl
      obtain ⟨hchange, hsettled⟩ := Node.handleChange_cache hsound.coherent hn hcache
      have hreason := Node.cache_ne_notReady hsound.coherent hn hstate hcache
      have hcached : Fleet.Sound r₀ (some n') { f with world := w' } :=
        hsound.change_own hchange (by rintro _ ⟨⟩; exact hsettled)
      exact .undone hnode nofun (fun state he => hreason state (BenchmarkError.node.inj he))
        (hcached.change_own_none (n'.handleChange_stop hcached.coherent))
        fun hnil => ((hsince hnil).cache hcache).stop
  | ok cache =>
      have hready := Node.ready_of_cache hsound.coherent hcache
      dsimp only
      split
      · exact .unpopulated hnode hready
      · exact .prepared hnode hready

theorem Attempt.own (h : Attempt r₀ b config f₀ calls s) :
    Attempt r₀ b config f₀ calls (s.turn answers host workers config .own) := by
  cases h with
  | refused node => exact .refused node
  | undone node other waited sound restored => exact .undone node other waited sound restored
  | unpopulated node ready => exact .unpopulated node ready
  | prepared node ready => exact .prepared node ready
  | @waiting n f node state sound since =>
      obtain ⟨hchange, hsettled⟩ :=
        Node.handleChange_resume sound.coherent (sound.settled none n rfl)
      have hsound : Fleet.Sound r₀ (some (n.resume f.world).1)
          { f with world := (n.resume f.world).2 } :=
        sound.change_own hchange (by rintro _ ⟨⟩; exact hsettled)
      have hsince := fun hnil => (since hnil).resume
      have hstate := Node.state_resume state f.world
      dsimp only [Site.turn, goOn]
      split
      · exact .waiting node hstate hsound hsince
      · rename_i hready
        exact attempt_prepareOver f (n.resume f.world).1 (n.resume f.world).2 node
          (hstate.resolve_right hready) hsound hsince

/-- A set-up is in one of these ways at any time, whatever others do and whatever answers the
requests of the workload. -/
theorem Attempt.run (h : Attempt r₀ b config f₀ calls s) (turns : List Site.Turn) :
    Attempt r₀ b config f₀ (calls ++ turns.filterMap Site.Turn.call?)
      (s.run answers host workers config turns) := by
  induction turns generalizing calls s with
  | nil =>
      rw [List.filterMap_nil, List.append_nil]
      exact h
  | cons t turns ih =>
      cases t with
      | own => exact ih h.own
      | other call =>
          have hcalls := ih (h.other call)
          rw [List.append_assoc] at hcalls
          exact hcalls

/-! ## What it leaves -/

theorem begin_eq_alreadySetUp_iff {w : World} :
    (b.begin host config w).1 = .ended (.error (.error .alreadySetUp)) ↔ b.node.isSome := by
  unfold begin
  split
  · rename_i hnode
    exact iff_of_true rfl hnode
  · rename_i hnode
    refine iff_of_false ?_ hnode
    split
    · nofun
    · split <;> nofun

/-- What a set-up of `b` that began beside the fleet `f₀` leaves, after `calls` of others. -/
structure SetUp (w₀ : World) (b : Benchmark) (config : Config) (f₀ : Fleet)
    (calls : List Fleet.Call) (s : Site) : Prop where
  sound : s.bench.Sound
  /-- To set up again fails and changes nothing. -/
  again : b.node.isSome →
    s = ⟨b, .ended (.error (.error .alreadySetUp)), f₀.run calls⟩
  /-- While the node is not ready, nothing is stored. -/
  waiting : ∀ n, s.progress = .started n →
    s.bench = b ∧ b.node = none ∧ (n.state = .ready ∨ n.state = .awaitingConvergence)
  /-- After a failure other than that of the population nothing is stored, and the members are those
  there were before the fleet and those of the fleet. If others did nothing, they are the same as at
  the beginning, and so are the endpoints. -/
  failed : b.node = none → ∀ e, s.progress = .ended (.error (.error e)) →
    (∀ p, e ≠ .population p) →
    s.bench = b ∧ b.cache = none ∧ s.bench.description = b.description ∧
      (∀ id k, k ∈ s.fleet.world.registry.membersOf id ↔ k ∈ w₀.registry.membersOf id ∨
        ∃ (name : String) (n : Node), s.fleet.nodes[name]? = some n ∧ s.fleet.IsMember n id k) ∧
      (calls = [] →
        (∀ id, s.fleet.world.registry.membersOf id = f₀.world.registry.membersOf id) ∧
          s.fleet.world.endpoints = f₀.world.endpoints)
  /-- After a failed population the node and the configuration are kept, with nothing prepared. -/
  unpopulated : b.node = none → ∀ e : Fault PopulationError,
    s.progress = .ended (.error (e.map .population)) → ∃ n, n.state = .ready ∧
      s.bench = { workload := b.workload, config := some config, node := some n }
  /-- The cache is looked for on a ready node only. -/
  waited : ∀ state, s.progress ≠ .ended (.error (.error (.node (.notReady state))))
  prepared : b.node = none → s.progress = .ended (.ok ()) → ∃ n cache, n.state = .ready ∧
    s.bench =
      { workload := b.workload, config := some config, node := some n, cache := some cache }
  /-- Later set-ups are refused if and only if a node is kept. -/
  later : ∀ host' config' w', (s.bench.begin host' config' w').1 =
    .ended (.error (.error .alreadySetUp)) ↔ s.bench.node.isSome

theorem Attempt.setUp {w₀ : World} (hb : b.Sound) (hw₀ : w₀.registry.Coherent)
    (hf₀ : f₀.world.registry.Coherent) (h : Attempt w₀.registry b config f₀ calls s) :
    SetUp w₀ b config f₀ calls s := by
  refine ⟨?sound, ?again, ?waiting, ?failed, ?unpopulated, ?waited, ?prepared,
    fun _ _ _ => begin_eq_alreadySetUp_iff⟩
  case sound =>
    cases h with
    | refused | waiting | undone => exact hb
    | unpopulated | prepared => nofun
  case again =>
    intro hnode
    cases h with
    | refused => rfl
    | waiting node | undone node | unpopulated node | prepared node =>
        rw [node] at hnode
        cases hnode
  case waiting =>
    rintro n hn
    cases h with
    | waiting node state =>
        cases hn
        exact ⟨rfl, node, state⟩
    | refused | undone | unpopulated | prepared => cases hn
  case failed =>
    intro hnode e he hother
    cases h with
    | refused node =>
        rw [hnode] at node
        cases node
    | undone _ _ _ sound restored =>
        refine ⟨rfl, hb hnode, rfl, sound.mem_membersOf_named hw₀, fun hnil => ?_⟩
        exact ⟨(restored hnil).membersOf hf₀, (restored hnil).endpoints⟩
    | @unpopulated e' =>
        exact absurd (Except.error.inj (Progress.ended.inj he)) (Fault.map_population_ne hother e')
    | waiting | prepared => cases he
  case unpopulated =>
    intro hnode e he
    cases h with
    | @unpopulated _ n _ _ ready => exact ⟨n, ready, by rw [hb hnode]⟩
    | undone _ other =>
        exact absurd (Except.error.inj (Progress.ended.inj he)).symm
          (Fault.map_population_ne other e)
    | refused node => rw [hnode] at node; cases node
    | waiting | prepared => cases he
  case waited =>
    intro state he
    cases h with
    | undone _ _ waited =>
        exact waited state (Fault.error.inj (Except.error.inj (Progress.ended.inj he)))
    | @unpopulated e' =>
        have hother : ∀ p, BenchmarkError.node (.notReady state) ≠ .population p := nofun
        exact Fault.map_population_ne hother e' (Except.error.inj (Progress.ended.inj he))
    | refused | waiting | prepared => cases he
  case prepared =>
    intro hnode hok
    cases h with
    | @prepared n cache _ _ ready => exact ⟨n, cache, ready, rfl⟩
    | refused | waiting | undone | unpopulated => cases hok

/-- Setting up among the nodes of a fleet, at any time of its life and whatever they do. -/
theorem setUp_run {w₀ : World} (hw₀ : w₀.registry.Coherent) (hb : b.Sound)
    (before : List Fleet.Call) (turns : List Site.Turn) :
    SetUp w₀ b config (({ world := w₀ } : Fleet).run before)
      (turns.filterMap Site.Turn.call?)
      ((Site.begin host config b (({ world := w₀ } : Fleet).run before)).run answers host workers
        config turns) := by
  have hf := (Fleet.sound_start hw₀).run before
  have hbegun : Attempt w₀.registry b config (({ world := w₀ } : Fleet).run before) []
      (Site.begin host config b (({ world := w₀ } : Fleet).run before)) := attempt_begin hf
  exact (hbegun.run turns).setUp hb hw₀ hf.coherent

def bareHost : Host := { contents := fun path => .error path, reachable := true }

def pair : Config := { nodes := 2 }

/-- The turns that set up the one member while the other starts. -/
def pairTurns : List Site.Turn :=
  [.own, .other (.create "peer" .member), .other (.start "peer" bareHost pair), .own]

def pairAfter (turns : List Site.Turn) : Site :=
  (Site.begin bareHost pair { workload := .bulkPut } (({ world := {} } : Fleet).run [])).run
    (World.service bareHost) bareHost 1 pair turns

/-- The benchmark waits for the second member, and is set up when that is there. -/
theorem setUp_run_pair :
    ({} : World).registry.Coherent ∧ ({ workload := .bulkPut } : Benchmark).Sound ∧
      (pairAfter (pairTurns.take 3)).progress.result? = none ∧
      (pairAfter pairTurns).progress = .ended (.ok ()) ∧ ∃ n cache, n.state = .ready ∧
        (pairAfter pairTurns).bench =
          { workload := .bulkPut, config := some pair, node := some n, cache := some cache } := by
  have hfresh : ({ workload := .bulkPut } : Benchmark).Sound := fun _ => rfl
  have hwaits : (pairAfter (pairTurns.take 3)).progress.result? = none := by decide +kernel
  have hresult : (pairAfter pairTurns).progress.result? = some (.ok ()) := by decide +kernel
  have hok := Progress.result?_eq_some_iff.1 hresult
  refine ⟨Registry.coherent_empty, hfresh, hwaits, hok, ?_⟩
  exact (setUp_run Registry.coherent_empty hfresh [] pairTurns).prepared rfl hok

/-! ## Servers that take no connections -/

/-- The caches of a world as a worker finds them whose requests come while others have all pooled
connections in use. -/
def contended (host : Host) (late : Request → Bool) (h : CacheHandle) : Service World := fun r w =>
  match h with
  | .shared _ => World.service host h r w
  | .remote id =>
    match late r, w.clients[id]? with
    | true, some c =>
      let without := { w with clients := w.clients.insert id { c with pool := [] } }
      let (x, w) := World.service host h r without
      let back (c' : Client) : Client := { c' with pool := c'.pool ++ c.pool }
      (x, { w with clients := w.clients.modify id back })
    | _, _ => World.service host h r w

def serving : Fleet :=
  ({} : Fleet).run [.create "server" .member, .start "server" bareHost { clientMode := true }]

/-- The second server is not there. -/
def twoServers : Config where
  clientMode := true
  range := 2
  batch := 1
  serverHosts := ["127.0.0.1", "127.0.0.1:1"]

def ofSecond : Request → Bool
  | .put k _ => k % 2 = 1
  | _ => false

/-- A worker that needs a connection of its own is sent to the second server. The population fails,
and the benchmark keeps its node with nothing prepared. -/
theorem setUp_run_missing_server :
    let b : Benchmark := { workload := .rangeQuery }
    let s := (Site.begin bareHost twoServers b serving).run (contended bareHost ofSecond) bareHost 2
      twoServers [.own]
    let refusal : Report := .cache (.transport (.refused ⟨.v4 ⟨127, 0, 0, 1⟩, 1, 0⟩ .refused))
    s.progress.result? = some (.error (.error (.population
        (.failed 1 2 ⟨1, "query-populate-1", refusal⟩)))) ∧
      b.description = "RangeQuery" ∧
      s.bench.description =
        "RangeQuery-nn=1-b=0-as=false-cm=true-txc=OPTIMISTIC-txi=REPEATABLE_READ" ∧
      s.bench.node.isSome ∧ s.bench.cache = none ∧
      (s.bench.begin bareHost twoServers s.fleet.world).1.result? =
        some (.error (.error .alreadySetUp)) := by
  decide +kernel

end Benchmark

end CacheBench
