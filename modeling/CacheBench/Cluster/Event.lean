/-!
# Membership events

Every change of a cluster's membership is told to its listeners twice, before and after, with the
number of members that the change leads to.
-/

namespace CacheBench

/-- Numbers of the members of one cluster, in the order in which they joined. A counter of 64 bits
gives the same ones up to `2 ^ 64` joins (`Registry.nextNode_run_le`). -/
abbrev NodeId := Nat

inductive Phase
  | pre
  | post
deriving DecidableEq

def Phase.name : Phase → String
  | .pre => "pre"
  | .post => "post"

inductive Change
  | joined (node : NodeId)
  | left (node : NodeId)
deriving DecidableEq

namespace Change

def name : Change → String
  | .joined _ => "joined"
  | .left _ => "left"

def node : Change → NodeId
  | .joined n | .left n => n

end Change

structure Event where
  phase : Phase
  members : Nat
  change : Change
deriving DecidableEq

/-- Both phases of a change to `members` members. -/
def Event.phases (members : Nat) (change : Change) : List Event :=
  [⟨.pre, members, change⟩, ⟨.post, members, change⟩]

end CacheBench
