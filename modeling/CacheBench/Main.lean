import CacheBench.CommandLine

/-!
# The program

The command line on the files, the clock and the random numbers of the machine.
-/

namespace CacheBench

def tried {α : Type} (action : IO α) : IO (Except String α) := do
  try
    return .ok (← action)
  catch e =>
    return .error (toString e)

partial def sleepOn : IO Unit := do
  IO.sleep 1000
  sleepOn

/-- Repeats a step until a moment in milliseconds has come. -/
partial def repeatUntil {α : Type} (deadline : Nat) (step : α → α) (a : α) : IO α := do
  if (← IO.monoMsNow) < deadline then repeatUntil deadline step (step a) else return a

/-- The machine as it is. Workers take turns on one thread, so one processor is all they use. -/
def machine : System IO where
  files := {
    read := fun path => tried do return (← IO.FS.readBinFile path).data.toList
    makeDirectories := fun path => tried (IO.FS.createDirAll path)
    writeFile := fun path text => tried (IO.FS.writeFile path text) }
  reachable := true
  randomSeed := return UInt64.ofNat (← IO.rand 0 (2 ^ 64 - 1))
  processors := 1
  print text := IO.print text
  printError text := IO.eprint text
  idle := sleepOn
  repeatFor duration step m := do
    let start ← IO.monoMsNow
    let m ← repeatUntil (start + duration / 1000000) step m
    return (m, (← IO.monoMsNow) - start)

def readVariables : IO Variables := do
  let names := Config.clientWaitVariable :: Config.options.filterMap OptionSpec.env
  let values ← names.mapM fun name => do return (name, ← IO.getEnv name)
  return fun name => (values.lookup name).join

end CacheBench

open CacheBench in
def main (args : List String) : IO UInt32 := do
  return UInt32.ofNat (← Invocation.respond machine (← readVariables) args)
