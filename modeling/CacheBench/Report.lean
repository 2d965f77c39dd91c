import CacheBench.Error

/-!
# Reports

A report is what a failed operation tells its caller: a cache error as it is, a malformed JSON
text, a text of its own, or a text that says what was being done when something else failed.
-/

namespace CacheBench

inductive Report
  | cache (e : CacheError)
  | malformedJson
  | text (message : String)
  | context (message : String) (cause : Report)
deriving DecidableEq

namespace Report

/-- Stands for what the JSON reader says of a malformed text. -/
def malformedText : String := "<json>"

def chain : Report → List String
  | .cache e => [e.message]
  | .malformedJson => [malformedText]
  | .text message => [message]
  | .context message cause => message :: cause.chain

def message : Report → String
  | .cache e => e.message
  | .malformedJson => malformedText
  | .text message | .context message _ => message

def line (r : Report) : String := ": ".intercalate r.chain

/-- The cache error at the bottom of a report. -/
def cacheError? : Report → Option CacheError
  | .cache e => some e
  | .context _ cause => cause.cacheError?
  | .malformedJson | .text _ => none

end Report

end CacheBench
