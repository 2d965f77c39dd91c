import CacheBench.Config
import CacheBench.Node.World

/-!
# Nodes

A node is one member of a cluster or one client of its servers. `Node.start` brings it online: a
member joins, defines the standard caches and waits for the cluster to converge, a client connects
to the first server. A start that fails leaves the node stopped and gives back all it took. A member
that still has to wait when `Node.start` returns goes on with `Node.resume`.
-/

namespace CacheBench

open Std (TreeMap)

inductive Role
  | member
  | client
deriving DecidableEq

def Role.name : Role → String
  | .member => "Member"
  | .client => "Client"

inductive NodeState
  | starting
  | awaitingConvergence
  | ready
  | stopped
deriving DecidableEq

def NodeState.name : NodeState → String
  | .starting => "Starting"
  | .awaitingConvergence => "AwaitingConvergence"
  | .ready => "Ready"
  | .stopped => "Stopped"

inductive NodeError
  | alreadyStarted (state : NodeState)
  | notReady (state : NodeState)
  | config (e : ConfigError)
  | store (e : StoreConfigError)
  | port (e : PortError)
  | noServers
  | address (e : AddressError)
  | unconnected (servers : List SocketAddress) (e : CacheError)
  | unconnectedCache (name : String) (e : CacheError)
  | cache (e : CacheError)
  | setback (step : StartStep) (cause : Report)
  | memberNotRunning
  | clientNotRunning
deriving DecidableEq

namespace NodeError

def report : NodeError → Report
  | .alreadyStarted state => .text s!"node is already {state.name}"
  | .notReady state => .text s!"node is not ready ({state.name})"
  | .config e => .text e.message
  | .store e => e.report
  | .port e => e.report
  | .noServers => .text "client mode needs --server-hosts or --driver-hosts"
  | .address e => .context e.message (.text e.fault.message)
  | .unconnected servers e =>
    .context ("connect to servers [" ++ ", ".intercalate (servers.map SocketAddress.text) ++ "]")
      (.cache e)
  | .unconnectedCache name e => .context s!"connect remote cache {name}" (.cache e)
  | .cache e => .cache e
  | .setback step cause => (step.context?.map fun message => .context message cause).getD cause
  | .memberNotRunning => .text "member is not running"
  | .clientNotRunning => .text "client runtime is not running"

end NodeError

structure Node where
  role : Role
  state : NodeState := .stopped
  member : Option Starter := none
  /-- Where the endpoint listens, if it has one. -/
  endpoint : Option SocketAddress := none
  /-- The name of the threads that the endpoint or the client runs on. -/
  runtime : Option String := none
  servers : List SocketAddress := []
  remotes : TreeMap String ClientId := ∅

namespace Node

def ofConfig (config : Config) : Node := { role := if config.clientMode then .client else .member }

def stop (n : Node) (w : World) : Node × World :=
  let w := match n.endpoint with
    | some a => w.unlisten a
    | none => w
  let w := match n.member with
    | some s => { w with registry := s.giveUp w.registry }
    | none => w
  ({ role := n.role }, w)

/-- Goes on unless the host makes the step fail. -/
def attempt (host : Host) (step : StartStep) : Except NodeError Unit :=
  match host.setback? step with
  | some cause => .error (.setback step cause)
  | none => .ok ()

/-! ## Starting a member -/

/-- Adds caches by name, defined for the cluster of a handle, up to the first that fails. -/
def defineCaches (host : Host) (store : StoreConfig) (params : ClusterParams) (h : HandleId) :
    List String → TreeMap String CacheId → Registry →
      Except NodeError (TreeMap String CacheId) × Registry
  | [], m, r => (.ok m, r)
  | name :: names, m, r =>
    match attempt host (.define name) with
    | .error e => (.error e, r)
    | .ok () =>
      match r.define h (store.settings name params) with
      | some (id, r) => defineCaches host store params h names (m.insert name id) r
      | none => defineCaches host store params h names m r

/-- Defines the standard caches for a new member, which then listens to the events of its cluster. -/
def equip (host : Host) (store : StoreConfig) (params : ClusterParams) (s : Starter) (r : Registry) :
    Except NodeError (TreeMap String CacheId) × Starter × Registry :=
  match defineCaches host store params s.handle standardCaches ∅ r with
  | (.error e, r) => (.error e, s, r)
  | (.ok caches, r) =>
    match attempt host .subscribe with
    | .error e => (.error e, s, r)
    | .ok () =>
      let (s, r) := s.subscribe r
      match attempt host .listener with
      | .error e => (.error e, s, r)
      | .ok () => (.ok caches, s, r)

def endpointRuntime : String := "holo-endpoint"

def clientRuntime : String := "holo-client"

/-- Serves the caches on the first free port. Finding none is no error. -/
def startEndpoint (host : Host) (config : Config) (caches : TreeMap String CacheId) (n : Node)
    (w : World) : Except NodeError Unit × Node × World :=
  match bindHost config.bindHost with
  | .error e => (.error (.port e), n, w)
  | .ok ip =>
    match negotiate ip config.endpointPort (attemptBudget config.nodes) (World.bind host) w with
    | (.error e, w) => (.error (.port e), n, w)
    | (.ok none, w) => (.ok (), n, w)
    | (.ok (some found), w) =>
      match [.nonBlocking, .runtime endpointRuntime, .register].forM (attempt host) with
      | .error e => (.error e, n, w)
      | .ok () =>
        (.ok (), { n with endpoint := some found.address, runtime := some endpointRuntime },
          w.listen found.address caches)

def clusterName (config : Config) (store : StoreConfig) : String :=
  (config.cluster <|> store.clusterName).getD defaultCluster

/-- A member that cannot be equipped leaves again. From then on the node holds it. -/
def startMember (host : Host) (config : Config) (n : Node) (w : World) :
    Except NodeError Unit × Node × World :=
  match StoreConfig.load config.storeConfig host.contents with
  | .error e => (.error (.store e), n, w)
  | .ok store =>
    let name := clusterName config store
    match attempt host (.join name) with
    | .error e => (.error e, n, w)
    | .ok () =>
      let (s, r) := Starter.join w.registry name config.discoverySeeds config.nodes
      match equip host store config.clusterParams s r with
      | (.error e, s, r) => (.error e, n, { w with registry := s.giveUp r })
      | (.ok caches, s, r) =>
        let s := s.sample r
        let n := { n with member := some s }
        let w := { w with registry := r }
        let state : NodeState := if s.gate.released then .ready else .awaitingConvergence
        if config.clientMode then
          match n.startEndpoint host config caches w with
          | (.error e, n, w) => (.error e, n, w)
          | (.ok (), n, w) => (.ok (), { n with state }, w)
        else (.ok (), { n with state }, w)

/-! ## Starting a client -/

def startClient (host : Host) (config : Config) (n : Node) (w : World) :
    Except NodeError Unit × Node × World :=
  if config.clientServers.isEmpty then (.error .noServers, n, w)
  else
    match parseServers config.endpointPort (",".intercalate config.clientServers) with
    | .error e => (.error (.address e), n, w)
    | .ok servers =>
      let n := { n with servers }
      match attempt host (.runtime clientRuntime) with
      | .error e => (.error e, n, w)
      | .ok () =>
        let n := { n with runtime := some clientRuntime }
        match w.openClient host plainCache servers with
        | (.error e, w) => (.error (.unconnected servers e), n, w)
        | (.ok id, w) =>
          (.ok (), { n with remotes := n.remotes.insert plainCache id, state := .ready }, w)

/-! ## Calls -/

def start (host : Host) (config : Config) (n : Node) (w : World) :
    Except NodeError Unit × Node × World :=
  if n.state ≠ .stopped then (.error (.alreadyStarted n.state), n, w)
  else
    match config.validate with
    | .error e => (.error (.config e), n, w)
    | .ok () =>
      let n := { n with state := .starting }
      match match n.role with
        | .member => n.startMember host config w
        | .client => n.startClient host config w with
      | (.error e, n, w) => (.error e, n.stop w)
      | (.ok (), n, w) => (.ok (), n, w)

/-- Passes waiting events to the gate, which may end the wait for convergence. -/
def resume (n : Node) (w : World) : Node × World :=
  match n.member with
  | none => (n, w)
  | some s =>
    let (s, registry) := s.deliverAll w.registry
    let released := n.state = .awaitingConvergence && s.gate.released
    ({ n with member := some s, state := if released then .ready else n.state }, { w with registry })

/-- A cache of a ready node by name. A client connects to a cache when it is first asked for. -/
def cache (host : Host) (n : Node) (w : World) (name : String) :
    Except NodeError CacheHandle × Node × World :=
  if n.state ≠ .ready then (.error (.notReady n.state), n, w)
  else
    match n.role with
    | .member =>
      match n.member with
      | some s =>
        match w.registry.cache s.handle name with
        | some (.ok id) => (.ok (.shared id), n, w)
        | some (.error e) => (.error (.cache e), n, w)
        | none => (.error (.notReady n.state), n, w)
      | none => (.error .memberNotRunning, n, w)
    | .client =>
      match n.remotes[name]? with
      | some id => (.ok (.remote id), n, w)
      | none =>
        if n.runtime.isNone then (.error .clientNotRunning, n, w)
        else
          match w.openClient host name n.servers with
          | (.ok id, w) => (.ok (.remote id), { n with remotes := n.remotes.insert name id }, w)
          | (.error e, w) => (.error (.unconnectedCache name e), n, w)

end Node

end CacheBench
