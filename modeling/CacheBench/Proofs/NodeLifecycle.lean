import CacheBench.Proofs.FleetHandles

/-!
# The life of nodes

Between calls each node of a fleet is stopped or ready, and a stopped one holds nothing. So the
members of each cluster are those that were there before and those of the member nodes that are
ready (`Lifecycle`).
-/

namespace CacheBench

open Std (TreeMap)

namespace Node

variable {host : Host} {config : Config}

/-! ## Starting again -/

theorem defineCaches_ok (hhost : ∀ step, host.setback? step = none) (store : StoreConfig)
    (params : ClusterParams) (h : HandleId) (names : List String) (m : TreeMap String CacheId)
    (r : Registry) : ∃ caches, (defineCaches host store params h names m r).1 = .ok caches := by
  induction names generalizing m r with
  | nil => exact ⟨m, rfl⟩
  | cons name names ih =>
      simp only [defineCaches, attempt, hhost]
      cases r.define h (store.settings name params) with
      | none => exact ih m r
      | some p => exact ih (m.insert name p.1) p.2

/-- A host that lets a listener have the address has a port for it or has none left. -/
theorem tryPorts_bind_ok (hhost : ∀ step, host.setback? step = none) {ip : Ip}
    (hip : host.refusal? ip = none) (base : UInt16) (ports : List Nat) (w : World) :
    ∃ found, (tryPorts ip base (World.bind host) ports w).1 = .ok found := by
  induction ports with
  | nil => exact ⟨none, rfl⟩
  | cons port ports ih =>
      have hbind : World.bind host { ip, port := .ofNat port } w = (.inUse, w) ∨
          World.bind host { ip, port := .ofNat port } w = (.bound (), w) := by
        unfold World.bind
        rw [hip, hhost]
        dsimp only
        split
        · exact .inl rfl
        · exact .inr rfl
      unfold tryPorts
      rcases hbind with hbind | hbind
      · simp only [hbind]
        exact ih
      · simp only [hbind]
        exact ⟨_, rfl⟩

theorem startEndpoint_ok (hhost : ∀ step, host.setback? step = none) {ip : Ip}
    (hbind : bindHost config.bindHost = .ok ip) (hip : host.refusal? ip = none)
    (caches : TreeMap String CacheId) (n : Node) (w : World) :
    (n.startEndpoint host config caches w).1 = .ok () := by
  obtain ⟨found, hfound⟩ := tryPorts_bind_ok hhost hip config.endpointPort
    (candidatePorts config.endpointPort (attemptBudget config.nodes)) w
  unfold startEndpoint negotiate
  simp only [hbind]
  generalize tryPorts ip config.endpointPort (World.bind host) _ w = tried at hfound ⊢
  obtain ⟨result, w'⟩ := tried
  cases hfound
  cases found with
  | none => rfl
  | some found =>
      have hsteps : attempt host = fun _ => .ok () :=
        funext fun step => by rw [attempt, hhost]
      rw [hsteps]
      rfl

/-- A node that holds nothing starts as a member if its configuration and its store are right and
the host lets it, also if no port is free. -/
theorem start_member_ok (hhost : ∀ step, host.setback? step = none)
    (hvalid : config.validate = .ok ()) {store : StoreConfig}
    (hstore : StoreConfig.load config.storeConfig host.contents = .ok store)
    (hserve : config.clientMode = true →
      ∃ ip, bindHost config.bindHost = .ok ip ∧ host.refusal? ip = none) (w : World) :
    (({ role := .member } : Node).start host config w).1 = .ok () := by
  obtain ⟨caches, hcaches⟩ := defineCaches_ok hhost store config.clusterParams
    (Starter.join w.registry (clusterName config store) config.discoverySeeds config.nodes).1.handle
    standardCaches ∅
    (Starter.join w.registry (clusterName config store) config.discoverySeeds config.nodes).2
  simp only [start, ne_eq, not_true_eq_false, if_false, hvalid, startMember, hstore, attempt, hhost,
    equip]
  generalize defineCaches host store config.clusterParams _ standardCaches ∅ _ = defined at hcaches ⊢
  obtain ⟨result, r⟩ := defined
  cases hcaches
  by_cases hmode : config.clientMode = true
  · obtain ⟨ip, hbind, hip⟩ := hserve hmode
    simp only [hmode, if_true]
    generalize hserved : startEndpoint host config caches _ _ = served
    have hok := startEndpoint_ok hhost hbind hip caches
    obtain ⟨result, n, w'⟩ := served
    have hresult : result = .ok () := (congrArg Prod.fst hserved).symm.trans (hok _ _)
    cases hresult
    rfl
  · simp only [hmode, Bool.false_eq_true, if_false]

theorem start_client_ok (hhost : ∀ step, host.setback? step = none)
    (hvalid : config.validate = .ok ()) (hhosts : config.clientServers ≠ [])
    {servers : List SocketAddress}
    (hservers : parseServers config.endpointPort (",".intercalate config.clientServers) =
      .ok servers) {w : World} {id : ClientId}
    (hopen : (w.openClient host plainCache servers).1 = .ok id) :
    (({ role := .client } : Node).start host config w).1 = .ok () := by
  have hsome : config.clientServers.isEmpty = false := by simpa using hhosts
  simp only [start, ne_eq, not_true_eq_false, if_false, hvalid, startClient, hsome,
    Bool.false_eq_true, hservers, attempt, hhost]
  generalize w.openClient host plainCache servers = opened at hopen ⊢
  obtain ⟨result, w'⟩ := opened
  cases hopen
  rfl

end Node

namespace Fleet

variable {r₀ : Registry} {f f' : Fleet} {own : Option Node} {name : String}

/-- No start is waiting for its cluster to converge, so no call is under way. -/
def Quiet (f : Fleet) : Prop :=
  ∀ (name : String) (n : Node), f.nodes[name]? = some n → n.state ≠ .awaitingConvergence

/-- A start that fails changes no node and no members. -/
theorem Sound.start_failed (hf : f.Sound r₀ own) {host : Host} {config : Config} {e : NodeError}
    (h : f.start host config name = (some (.error e), f')) :
    (∀ a : String, f'.nodes[a]? = f.nodes[a]?) ∧
      (∀ id, f'.world.registry.membersOf id = f.world.registry.membersOf id) ∧
      f'.world.endpoints = f.world.endpoints := by
  unfold Fleet.start Fleet.update at h
  cases hn : f.nodes[name]? with
  | none =>
      rw [hn] at h
      cases h
  | some n =>
      rw [hn] at h
      have hsettled := hf.settled (some name) n hn
      have hfailed : ∀ {n' w'}, n.start host config f.world = (.error e, n', w') →
          n' = n ∧ f.world.Restored w' := by
        intro n' w' hs
        by_cases hstate : n.state = .stopped
        · have hidle := hsettled.idle hstate
          generalize n.role = role at hidle
          subst hidle
          cases Node.started hf.coherent hs with
          | failed restored => exact ⟨rfl, restored⟩
        · rw [Node.start, if_pos hstate] at hs
          cases hs
          exact ⟨rfl, .refl hf.coherent⟩
      dsimp only at h
      generalize hs : n.start host config f.world = started at h
      obtain ⟨result, n', w'⟩ := started
      cases h
      obtain ⟨rfl, hrestored⟩ := hfailed hs
      refine ⟨fun a => ?_, fun id => hrestored.membersOf hf.coherent id, hrestored.endpoints⟩
      rw [TreeMap.getElem?_insert]
      split
      · rename_i ha
        rw [← Std.LawfulEqCmp.compare_eq_iff_eq.1 ha, hn]
      · rfl

/-- What a start that succeeds did to the fleet `f` and its node `n`, which is `n'` in `f'`. -/
inductive Grown (host : Host) (config : Config) (f f' : Fleet) (n n' : Node) : Prop
  /-- The node is the member `k` of the cluster of its name, where it waits as long as that has too
  few members. -/
  | member {store : StoreConfig} {id : ClusterId} {c : Cluster} {k : NodeId}
    (role : n.role = .member) (same : n'.role = .member)
    (loaded : StoreConfig.load config.storeConfig host.contents = .ok store)
    (cluster : f'.world.registry.clusters[id]? = some c) (name : c.name = Node.clusterName config store)
    (isMember : f'.IsMember n' id k) (fresh : k ∉ f.world.registry.membersOf id)
    (members : ∀ a, f'.world.registry.membersOf a =
      if id = a then insert k (f.world.registry.membersOf a) else f.world.registry.membersOf a)
    (state : n'.state = if config.nodes ≤ (f'.world.registry.membersOf id).card then .ready
      else .awaitingConvergence)
    (serves : n'.Serves config f.world f'.world)
  /-- The node is connected to its servers, and no member. -/
  | client (role : n.role = .client) (same : n'.role = .client) (state : n'.state = .ready)
    (connected : n'.Connected config f'.world)
    (members : ∀ a, f'.world.registry.membersOf a = f.world.registry.membersOf a)
    (endpoints : f'.world.endpoints = f.world.endpoints)

theorem Sound.grown (hf : f.Sound r₀ own) {host : Host} {config : Config}
    (h : f.start host config name = (some (.ok ()), f')) :
    (∀ a : String, a ≠ name → f'.nodes[a]? = f.nodes[a]?) ∧ ∃ n n' : Node,
      f.nodes[name]? = some n ∧ f'.nodes[name]? = some n' ∧ Grown host config f f' n n' := by
  unfold Fleet.start Fleet.update at h
  cases hn : f.nodes[name]? with
  | none =>
      rw [hn] at h
      cases h
  | some n =>
      rw [hn] at h
      dsimp only at h
      generalize hs : n.start host config f.world = started at h
      obtain ⟨result, n', w'⟩ := started
      cases h
      refine ⟨fun a ha => ?others, n, n', rfl, TreeMap.getElem?_insert_self, ?grown⟩
      case others =>
        rw [TreeMap.getElem?_insert, if_neg]
        rw [Std.LawfulEqCmp.compare_eq_iff_eq]
        exact ha.symm
      case grown =>
        have hstate : n.state = .stopped := by
          by_contra hstate
          rw [Node.start, if_pos hstate] at hs
          cases hs
        have hidle := (hf.settled (some name) n hn).idle hstate
        generalize n.role = role at hidle
        subst hidle
        cases Node.started hf.coherent hs with
        | member hrole node starter enrolled seated serves =>
            generalize hstate' : n'.state = state at seated
            obtain ⟨loaded, holder, name⟩ := seated
            obtain ⟨hx, hc⟩ := Registry.holder?_eq_some_iff _ |>.1 holder
            obtain ⟨hfresh, hmembers⟩ := enrolled.membersOf hf.coherent hx
            obtain ⟨y, hy, hleft⟩ := enrolled.live
            cases hx.symm.trans hy
            have hcard := Registry.card_membersOf (Registry.roll?_of_cluster _ hc)
            refine .member hrole node loaded hc name
              ⟨_, congrArg (Option.map Starter.handle) starter, ?_⟩ hfresh hmembers ?_ serves
            · rw [← hleft]
              exact hx
            · rw [hcard, hstate']
              rfl
        | client hrole node state _ _ restored connected =>
            exact .client hrole node state connected (restored.membersOf hf.coherent)
              restored.endpoints

/-- The life of the nodes of a fleet that began in the world `w₀`. -/
structure Lifecycle (w₀ : World) (f : Fleet) : Prop where
  /-- Between calls a node is stopped or ready, where a start that waits is a call under way. -/
  state : ∀ (name : String) (n : Node), f.nodes[name]? = some n →
    n.state = .stopped ∨ n.state = .ready ∨ n.state = .awaitingConvergence
  /-- A stopped node holds nothing: it is as it was made. -/
  stopped : ∀ (name : String) (n : Node), f.nodes[name]? = some n → n.state = .stopped →
    n = { role := n.role }
  /-- The members are those there were before and the member nodes that are ready. -/
  members : f.Quiet → ∀ id k, k ∈ f.world.registry.membersOf id ↔
    k ∈ w₀.registry.membersOf id ∨ ∃ (name : String) (n : Node), f.nodes[name]? = some n ∧
      n.role = .member ∧ n.state = .ready ∧ f.IsMember n id k
  own : ∀ (name : String) (n : Node), f.nodes[name]? = some n → n.role = .member →
    n.state ≠ .stopped → ∃ id k, f.IsMember n id k ∧ k ∉ w₀.registry.membersOf id ∧
      ∀ (name' : String) (n' : Node), f.nodes[name']? = some n' → f.IsMember n' id k → name' = name
  /-- A start that succeeds changes no other node, and puts its own online. -/
  start_ok : ∀ (name : String) host config f', f.start host config name = (some (.ok ()), f') →
    (∀ a : String, a ≠ name → f'.nodes[a]? = f.nodes[a]?) ∧ ∃ n n' : Node,
      f.nodes[name]? = some n ∧ f'.nodes[name]? = some n' ∧ Grown host config f f' n n'
  /-- A start that fails changes no node and no members. -/
  start_failed : ∀ (name : String) host config e f',
    f.start host config name = (some (.error e), f') →
    (∀ a : String, f'.nodes[a]? = f.nodes[a]?) ∧
      (∀ id, f'.world.registry.membersOf id = f.world.registry.membersOf id) ∧
      f'.world.endpoints = f.world.endpoints
  /-- A node that is online cannot be started. -/
  start_again : ∀ (name : String) (n : Node) host config, f.nodes[name]? = some n →
    n.state ≠ .stopped →
    n.start host config f.world = (.error (.alreadyStarted n.state), n, f.world)
  /-- A stopped member starts whenever nothing that it needs fails. -/
  restart : ∀ (name : String) (n : Node) (host : Host) config, f.nodes[name]? = some n →
    n.state = .stopped → n.role = .member → (∀ step, host.setback? step = none) →
    config.validate = .ok () →
    (∃ store, StoreConfig.load config.storeConfig host.contents = .ok store) →
    (config.clientMode = true →
      ∃ ip, bindHost config.bindHost = .ok ip ∧ host.refusal? ip = none) →
    (n.start host config f.world).1 = .ok ()
  /-- A stopped client starts whenever it can connect to its servers. -/
  restart_client : ∀ (name : String) (n : Node) (host : Host) config servers,
    f.nodes[name]? = some n → n.state = .stopped → n.role = .client →
    (∀ step, host.setback? step = none) → config.validate = .ok () →
    config.clientServers ≠ [] →
    parseServers config.endpointPort (",".intercalate config.clientServers) = .ok servers →
    (∃ id, (f.world.openClient host plainCache servers).1 = .ok id) →
    (n.start host config f.world).1 = .ok ()
  /-- Only a ready node has caches. -/
  cache : ∀ (name : String) (n : Node) host cacheName, f.nodes[name]? = some n →
    n.state ≠ .ready →
    n.cache host f.world cacheName = (.error (.notReady n.state), n, f.world)
  /-- To stop once more changes nothing. -/
  stop : ∀ (name : String) (n : Node), f.nodes[name]? = some n →
    (n.stop f.world).1 = { role := n.role } ∧
      (n.stop f.world).1.stop (n.stop f.world).2 = n.stop f.world

/-- Whatever is called on the nodes and whatever fails of it, the nodes that are not online hold
nothing, and the clusters have no members for them. -/
theorem lifecycle_run {w₀ : World} (hw₀ : w₀.registry.Coherent) (calls : List Call) :
    Lifecycle w₀ (({ world := w₀ } : Fleet).run calls) := by
  have hf := (sound_start hw₀).run calls
  generalize ({ world := w₀ } : Fleet).run calls = f at hf
  refine ⟨?state, fun name n hn => (hf.settled (some name) n hn).idle, ?members, ?own,
    fun name host config f' h => hf.grown h, fun name host config e f' h => hf.start_failed h,
    fun name n host config _ hstate => if_pos hstate, ?restart, ?restart_client,
    fun name n host cacheName _ hstate => if_pos hstate, fun name n _ => ⟨rfl, rfl⟩⟩
  case state =>
    intro name n hn
    cases hf.settled (some name) n hn with
    | stopped idle => exact .inl (by rw [idle])
    | member _ state => exact .inr state
    | client _ state => exact .inr (.inl state)
  case members =>
    intro hquiet id k
    rw [hf.mem_membersOf_named hw₀]
    refine or_congr_right ⟨?_, ?_⟩
    · rintro ⟨name, n, hn, h, handle, hx⟩
      cases hf.settled (some name) n hn with
      | stopped idle =>
          rw [idle] at handle
          cases handle
      | client _ _ handle' => cases handle'.symm.trans handle
      | member role state =>
          exact ⟨name, n, hn, role, state.resolve_right (hquiet name n hn), h, handle, hx⟩
    · rintro ⟨name, n, hn, -, -, hmember⟩
      exact ⟨name, n, hn, hmember⟩
  case own =>
    intro name n hn hrole hstate
    obtain ⟨id, k, hmember, hnew, honly⟩ := hf.isMember hw₀ (i := some name) hn hrole hstate
    exact ⟨id, k, hmember, hnew, fun name' n' hn' hmember' =>
      Option.some.inj (honly (some name') n' hn' hmember')⟩
  case restart =>
    rintro name n host config hn hstate hrole hhost hvalid ⟨store, hstore⟩ hserve
    rw [(hf.settled (some name) n hn).idle hstate, hrole]
    exact Node.start_member_ok hhost hvalid hstore hserve _
  case restart_client =>
    rintro name n host config servers hn hstate hrole hhost hvalid hhosts hservers ⟨id, hopen⟩
    rw [(hf.settled (some name) n hn).idle hstate, hrole]
    exact Node.start_client_ok hhost hvalid hhosts hservers hopen

def threadlessHost : Host where
  contents path := .error path
  reachable := true
  setback? step := if step = .listener then some (.text "no more threads") else none

theorem lifecycle_run_threadless : ({} : World).registry.Coherent ∧
    Lifecycle {} (({ world := {} } : Fleet).run [.create "a" .member,
      .start "a" { threadlessHost with setback? := fun _ => none } {}, .create "b" .member,
      .start "b" threadlessHost {}, .cache "a" threadlessHost plainCache, .stop "b",
      .drop "a"]) :=
  ⟨Registry.coherent_empty, lifecycle_run Registry.coherent_empty _⟩

end Fleet

end CacheBench
