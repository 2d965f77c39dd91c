import CacheBench.Program

/-!
# Scripted caches

A scripted cache answers from a script and notes what it was asked. It keeps nothing, so the same
request gets the same answer every time. It shows what work makes of failures.
-/

namespace CacheBench

/-- Requests that a script can let fail. -/
inductive ScriptedCall
  | begin
  | txGet
  | txPut
  | commit
  | rollback
  | putAll
  | query
deriving DecidableEq

namespace ScriptedCall

def name : ScriptedCall → String
  | .begin => "begin"
  | .txGet => "tx_get"
  | .txPut => "tx_put"
  | .commit => "commit"
  | .rollback => "rollback"
  | .putAll => "put_all"
  | .query => "query"

def all : List ScriptedCall := [.begin, .txGet, .txPut, .commit, .rollback, .putAll, .query]

end ScriptedCall

structure Script where
  /-- The keys that have a value, which is the key. -/
  present : List Key := []
  records : List Record := []
  failing : List ScriptedCall := []
  rejectsOddPuts : Bool := false
  panicsOnPuts : Bool := false
  /-- What was asked since the log was last taken. -/
  log : List String := []

namespace Script

def value? (s : Script) (k : Key) : Option Value :=
  if k ∈ s.present then some (.int k.toInt64) else none

def note (s : Script) (line : String) : Script := { s with log := s.log ++ [line] }

def reply {α : Type} (s : Script) (call : ScriptedCall) (line : String) (a : α) :
    Except (Fault CacheError) α × Script :=
  (if call ∈ s.failing then .error (.error (.remote ("scripted " ++ call.name))) else .ok a,
    s.note line)

def put (s : Script) (k : Key) : Except (Fault CacheError) Unit :=
  if s.panicsOnPuts then .error (.panic s!"scripted panic {k}")
  else if s.rejectsOddPuts && k % 2 = 1 then .error (.error (.remote s!"rejected key {k}"))
  else .ok ()

def service : Service Script := fun r s =>
  match r with
  | .get k => (.ok (s.value? k), s.note s!"get {k}")
  | .put k _ => (s.put k, s.note s!"put {k}")
  | .putAll b => s.reply .putAll s!"put_all {b.keys}" ()
  | .query p => s.reply .query s!"query {p}" s.records
  | .size => (.ok s.present.length, s)
  | .begin => s.reply .begin "begin" 0
  | .txGet _ k => s.reply .txGet s!"tx_get {k}" (s.value? k)
  | .txPut _ k _ => s.reply .txPut s!"tx_put {k}" ()
  | .commit _ => s.reply .commit "commit" ()
  | .rollback _ => s.reply .rollback "rollback" ()
  | .drop _ => (.ok (), s)

end Script

end CacheBench
