import CacheBench.Settings

/-!
# Benchmark configuration

The configuration shared by the nodes, the benchmark and the workload of one run, and the conditions
under which a run may use it.
-/

namespace CacheBench

/-- What a workload does with a failed transaction: fail, or report it and go on. -/
inductive FailurePolicy
  | propagate
  | log
deriving DecidableEq

namespace FailurePolicy

def name : FailurePolicy → String
  | .propagate => "propagate"
  | .log => "log"

def all : List FailurePolicy := [.propagate, .log]

def toJson : FailurePolicy → String
  | .propagate => Json.quote "propagate"
  | .log => Json.quote "log-and-continue"

end FailurePolicy

def defaultCluster : String := "holo-bench"

/-- The port of peers that are used as discovery seeds. -/
def discoveryPort : Nat := 7800

def defaultEndpointPort : UInt16 := 11222

structure Config where
  /-- Members a cluster needs before a member is ready. -/
  nodes : Nat := 1
  backups : Nat := 0
  /-- Keys are drawn from `[0, range)`. -/
  range : UInt64 := 1000000
  /-- Entries of a bulk write. -/
  batch : Nat := 100
  async : Bool := false
  clientMode : Bool := false
  concurrency : Concurrency := .optimistic
  isolation : Isolation := .repeatableRead
  failurePolicy : FailurePolicy := .log
  storeConfig : Option String := none
  driverHosts : List String := []
  serverHosts : List String := []
  bindHost : String := "127.0.0.1"
  endpointPort : UInt16 := defaultEndpointPort
  cluster : Option String := none
  seed : UInt64 := 1
  /-- Milliseconds a client waits before its first request. -/
  clientWait : Nat := 0
deriving DecidableEq

inductive ConfigError
  | noNodes
  | rangeTooSmall
  | rangeTooLarge
  | emptyBatch
  | batchBeyondRange (batch : Nat) (range : UInt64)
  | noBindHost
deriving DecidableEq

def ConfigError.message : ConfigError → String
  | .noNodes => "--nodes must be > 0"
  | .rangeTooSmall => "--range must be >= 2"
  | .rangeTooLarge => "--range must not exceed 9223372036854775807"
  | .emptyBatch => "--batch must be > 0"
  | .batchBeyondRange batch range => s!"--batch ({batch}) must not exceed --range ({range})"
  | .noBindHost => "--bind-host must not be empty"

namespace Config

/-- Keys are also written as signed integers, which bounds the range. -/
def validate (c : Config) : Except ConfigError Unit :=
  if c.nodes = 0 then .error .noNodes
  else if c.range.toNat < 2 then .error .rangeTooSmall
  else if 2 ^ 63 ≤ c.range.toNat then .error .rangeTooLarge
  else if c.batch = 0 then .error .emptyBatch
  else if c.range.toNat < c.batch then .error (.batchBeyondRange c.batch c.range)
  else if c.bindHost.isEmpty then .error .noBindHost
  else .ok ()

def description (c : Config) : String :=
  s!"-nn={c.nodes}-b={c.backups}-as={c.async}-cm={c.clientMode}-txc={c.concurrency}-txi={c.isolation}"

def peerHosts (c : Config) : List String := (c.driverHosts ++ c.serverHosts).eraseDups

/-- The hosts a client connects to: the servers if there are any, else all peers. -/
def clientServers (c : Config) : List String :=
  if c.serverHosts.isEmpty then c.peerHosts else c.serverHosts

def discoverySeeds (c : Config) : List String :=
  c.peerHosts.map fun host => s!"{host}[{discoveryPort}]"

def clusterParams (c : Config) : ClusterParams where
  backups := c.backups
  async := c.async
  concurrency := c.concurrency
  isolation := c.isolation

def toJson (c : Config) : String :=
  Json.object [("nodes", toString c.nodes), ("backups", toString c.backups),
    ("range", toString c.range), ("batch", toString c.batch), ("async_mode", Json.bool c.async),
    ("client_mode", Json.bool c.clientMode), ("tx_concurrency", c.concurrency.toJson),
    ("isolation", c.isolation.toJson), ("put_tx_failure", c.failurePolicy.toJson),
    ("store_config", Json.option Json.quote c.storeConfig),
    ("driver_hosts", Json.array (c.driverHosts.map Json.quote)),
    ("server_hosts", Json.array (c.serverHosts.map Json.quote)),
    ("bind_host", Json.quote c.bindHost), ("endpoint_port", toString c.endpointPort),
    ("cluster", Json.option Json.quote c.cluster), ("seed", toString c.seed),
    ("client_wait", Json.object [("secs", toString (c.clientWait / 1000)),
      ("nanos", toString (c.clientWait % 1000 * 1000000))])]

end Config

end CacheBench
