import Interlock.Stress.Report

/-!
# Stress run

`stress [-v...] [ITERATIONS]`: locks and a pool under load.  Threads are simulated and take turns
on one core.
-/

namespace Interlock.Stress

/-- The settings that a run looks at. -/
def settings : List String :=
  ["RKS_NUM_WORKERS", "RKS_PARK_TIMEOUT_MS", "RKS_STACK_SIZE", "RKS_DEBUG", "RKS_LOG_LEVEL"]

/-- The environment of the process. -/
def environment : IO Environment := do
  let vars ← settings.filterMapM fun name => do
    return (← IO.getEnv name).map fun text => (name, some text)
  return { vars }

/-- Carries out a part of a run and measures how long that takes. -/
def timed {α : Type} (part : Unit → α) : IO (α × Duration) := do
  let start ← IO.monoNanosNow
  let value ← IO.lazyPure part
  let nanos := (← IO.monoNanosNow) - start
  return (value, .ofParts (UInt64.ofNat (nanos / 1000000000)) nanos)

/-- Prints lines. -/
def printAll (lines : List String) : IO Unit := lines.forM fun line => IO.println line

/-- Prints logged lines where they do not mix with the report. -/
def logAll (log : List Log.Line) : IO Unit := log.forM fun line => IO.eprintln line.render

/-- The machine that the threads are simulated on: one core and 32 GiB. -/
def machine : Machine := { cores := 1, memory := 0x800000000 }

/-- Runs one part after the other and reports on each as it ends. -/
def runAll (args : List String) : IO UInt32 := do
  let env ← environment
  let arguments := Arguments.ofList args
  let iterations := arguments.iterations
  let threads := threads machine.cores
  let style : Style := {}
  printAll (title iterations)
  let (tally, took) ← timed fun _ => Tally.run threads iterations
  printAll (tally.lines style threads iterations took)
  let (cache, took) ← timed fun _ => Cache.run threads iterations
  printAll (cache.lines style threads iterations took)
  let (jobs, took) ← timed fun _ => Jobs.run machine (.ofEnvironment machine.cores env) iterations
  logAll (shown (arguments.threshold env) (Jobs.logOf jobs))
  match jobs with
  | .ok jobs =>
    printAll (jobs.lines style took)
    return 0
  | .error _ => return 1

end Interlock.Stress

/-- The stress run, with its arguments and its exit status. -/
def main (args : List String) : IO UInt32 := Interlock.Stress.runAll args
