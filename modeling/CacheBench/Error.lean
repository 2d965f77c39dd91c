import CacheBench.Net.Isolation
import CacheBench.Record

/-!
# Cache errors

Why a cache operation failed. `message` is the text shown for each cause. A malformed value and a
broken connection are described by their readers in words of their own; those words are left out.
-/

namespace CacheBench

/-- Versions count the batches applied to a cache. Zero is the version of an absent key. -/
abbrev Version := UInt64

inductive TransportFault
  | noServers
  | refused (server : SocketAddress) (reason : NetworkRefusal)
  | closed
  | broken
deriving DecidableEq

namespace TransportFault

def message : TransportFault → String
  | .noServers => "no server addresses"
  | .refused server reason => s!"connect to {server}: {reason.message}"
  | .closed => "connection closed by server"
  | .broken => "connection failed"

end TransportFault

inductive CacheError
  | transactionsUnsupported (holder : String)
  | unknownCache (name : String)
  | lockTimeout (key : Key) (milliseconds : UInt64)
  | writeConflict (key : Key) (read current : Version)
  | finishedTransaction
  | malformedValue
  | transport (fault : TransportFault)
  | remote (text : String)
deriving DecidableEq

namespace CacheError

def message : CacheError → String
  | .transactionsUnsupported holder => s!"{holder} does not support transactions"
  | .unknownCache name => s!"cache {name} is not defined"
  | .lockTimeout key milliseconds => s!"lock on key {key} not acquired within {milliseconds}ms"
  | .writeConflict key read current =>
    s!"write conflict on key {key}: read version {read}, current version {current}"
  | .finishedTransaction => "transaction is finished"
  | .malformedValue => "value codec error: <json>"
  | .transport fault => "transport error: " ++ fault.message
  | .remote text => "remote error: " ++ text

end CacheError

end CacheBench
