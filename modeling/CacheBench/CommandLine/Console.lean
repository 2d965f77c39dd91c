import CacheBench.CommandLine

/-!
# Consoles

A `Console` is a system kept as a value: its files, and what was printed. Time does not pass on it,
so a measurement ends before its first unit, and a node that waits is ended at once.
-/

namespace CacheBench

structure Console where
  tree : FileTree := .initial
  out : String := ""
  err : String := ""

namespace Console

def onFiles {α : Type} (x : StateM FileTree α) : StateM Console α := fun c =>
  let (a, tree) := x.run c.tree
  (a, { c with tree })

def system (reachable : Bool) : System (StateM Console) where
  files := {
    read := fun path => onFiles (FileTree.system.read path)
    makeDirectories := fun path => onFiles (FileTree.system.makeDirectories path)
    writeFile := fun path text => onFiles (FileTree.system.writeFile path text) }
  reachable
  randomSeed := return 1
  processors := 1
  print text := modify fun c => { c with out := c.out ++ text }
  printError text := modify fun c => { c with err := c.err ++ text }
  idle := return ()
  repeatFor _ _ m := return (m, 0)

def run (reachable : Bool) (env : Variables) (words : List String) (c : Console) : Nat × Console :=
  (Invocation.respond (system reachable) env words).run c

end Console

end CacheBench
