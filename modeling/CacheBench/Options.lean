import CacheBench.Config
import CacheBench.Options.Spec

/-!
# Configuration options

The options that every command with a node has, and the configuration they make. A seed of zero asks
for a random one.
-/

namespace CacheBench

namespace Config

/-- The variable with the seconds a client waits before its first request. -/
def clientWaitVariable : String := "HOLO_BENCH_CLIENT_WAIT_SECS"

def isolationName (i : Isolation) : String := i.name.map fun c => if c = '_' then '-' else c

def options : List (OptionSpec Config) := [
  { name := "nodes"
    help := "Cluster size a member waits for before it reports ready"
    env := some "HOLO_BENCH_NODES"
    default := some "1"
    action := .number fun n c => { c with nodes := n } },
  { name := "backups"
    help := "Backup copies per key"
    default := some "0"
    action := .number fun n c => { c with backups := n } },
  { name := "range"
    help := "Key range, keys are drawn from `[0, range)`"
    default := some "1000000"
    action := .number fun n c => { c with range := .ofNat n } },
  { name := "batch"
    help := "Entries per bulk write"
    default := some "100"
    action := .number fun n c => { c with batch := n } },
  { name := "async"
    help := "Asynchronous replication mode for every cache"
    action := .flag fun c => { c with async := true } },
  { name := "client-mode"
    help := "Serve caches over the RESP endpoint (members) / talk to it (clients)"
    action := .flag fun c => { c with clientMode := true } },
  { name := "tx-concurrency"
    default := some Concurrency.optimistic.name
    choices := Concurrency.all.map Concurrency.name
    action := .choice Concurrency.all Concurrency.name fun x c => { c with concurrency := x } },
  { name := "isolation"
    default := some (isolationName .repeatableRead)
    choices := Isolation.all.map isolationName
    action := .choice Isolation.all isolationName fun x c => { c with isolation := x } },
  { name := "put-tx-failure"
    help := "What PutTx does with a failed transaction"
    default := some FailurePolicy.log.name
    choices := FailurePolicy.all.map FailurePolicy.name
    action := .choice FailurePolicy.all FailurePolicy.name
      fun x c => { c with failurePolicy := x } },
  { name := "store-config"
    help := "JSON store configuration file"
    env := some "HOLO_BENCH_STORE_CONFIG"
    action := .path fun s c => { c with storeConfig := some s } },
  { name := "driver-hosts"
    help := "Comma-separated driver hosts"
    env := some "DRIVER_HOSTS"
    default := some "\"\""
    action := .text fun s c => { c with driverHosts := Text.commaList s } },
  { name := "server-hosts"
    help := "Comma-separated server hosts"
    env := some "SERVER_HOSTS"
    default := some "\"\""
    action := .text fun s c => { c with serverHosts := Text.commaList s } },
  { name := "bind-host"
    help := "Address the RESP endpoint binds to"
    env := some "LOCAL_IP"
    default := some "127.0.0.1"
    action := .text fun s c => { c with bindHost := s } },
  { name := "endpoint-port"
    help := "First port tried for the RESP endpoint"
    default := some (toString defaultEndpointPort)
    action := .port fun n c => { c with endpointPort := n } },
  { name := "cluster"
    help := "Cluster name. Falls back to the store config, then to `holo-bench`"
    env := some "HOLO_BENCH_CLUSTER"
    action := .text fun s c => { c with cluster := if s.isEmpty then none else some s } },
  { name := "seed"
    help := "Random seed (0 picks a random seed)"
    default := some "0"
    action := .number fun n c => { c with seed := .ofNat n } }]

def unset : Config := { seed := 0 }

/-- Seconds in the environment, none if they cannot be read. -/
def clientWaitOf (env : Variables) : Nat :=
  ((env clientWaitVariable).bind fun s => OptionAction.word64? (Text.trim s)).getD 0 * 1000

/-- The configuration that options make, with a seed in place of a zero one. -/
def finish (env : Variables) (randomSeed : UInt64) (c : Config) : Except ConfigError Config := do
  let c := { c with
    seed := if c.seed = 0 then randomSeed else c.seed
    clientWait := clientWaitOf env }
  c.validate
  return c

def usage (env : Variables) : String :=
  OptionSpec.usage options "holo-bench"
    "Command-line options shared by every subcommand that starts a node" env

end Config

end CacheBench
