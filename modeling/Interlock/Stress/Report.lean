import Interlock.Stress.Arguments
import Interlock.Stress.Jobs
import Interlock.Stress.Locks

/-!
# The report of a stress run

What a run prints: a line or two for each part, in the order in which the parts are run, and
what was logged.  A pool that cannot be made ends the run.

How long a part took and how often threads met depends on the machine, so these numbers come from
outside: `Style` says how they are written.
-/

namespace Interlock.Stress

/-- How numbers are written that depend on the machine. -/
structure Style where
  /-- Counts that depend on which thread came first. -/
  measured : Nat → String := toString
  /-- How long a part took. -/
  took : Duration → String := Duration.render

namespace Style

/-- A counter that depends on which thread came first. -/
def counter (style : Style) (c : Counter) : String := style.measured c.value.toNat

end Style

/-- The line in front of all. -/
def title (iterations : Nat) : List String :=
  ["=== rksync stress (" ++ toString iterations ++ " iterations) ===", ""]

/-- The lines about the count. -/
def Tally.lines (style : Style) (threads iterations : Nat) (took : Duration) (t : Tally) :
    List String :=
  ["exclusive: " ++ toString threads ++ " threads x " ++ toString iterations ++ " = "
      ++ toString t.total ++ " in " ++ style.took took,
   "  " ++ t.state.lock.renderWith style.counter]

/-- The lines about the cache. -/
def Cache.lines (style : Style) (threads iterations : Nat) (took : Duration) (c : Cache) :
    List String :=
  ["cache: " ++ toString (threads * iterations) ++ " lookups, " ++ style.measured c.hits
      ++ " hits in " ++ style.took took,
   "  " ++ c.session.lock.renderWith style.counter]

/-- The lines about the pool. -/
def Jobs.lines (style : Style) (took : Duration) (j : Jobs) : List String :=
  ["pool: " ++ toString j.done ++ " jobs on " ++ toString j.workers ++ " workers in "
      ++ style.took took ++ " (" ++ style.counter j.waited ++ " waited for a worker, "
      ++ toString j.panicked ++ " panicked)",
   "  reaped: " ++ toString j.reaped ++ ", live threads: " ++ toString j.live.value]

/-- What was logged, whether or not the pool could be made. -/
def Jobs.logOf : Except (List Log.Line) Jobs → List Log.Line
  | .ok jobs => jobs.log
  | .error log => log

/-- The lines that are shown at a threshold. -/
def shown (threshold : Nat) (log : List Log.Line) : List Log.Line :=
  log.filter (·.level.rank ≤ threshold)

/-- The outcome of a run: its exit code, what it prints and what it logs. -/
structure Report where
  code : Nat
  out : List String
  log : List Log.Line
  deriving DecidableEq, Repr, Inhabited

/-- Runs everything on a machine; no time is measured. -/
def Report.ofRun (style : Style) (machine : Machine) (env : Environment) (args : List String) :
    Report :=
  let arguments := Arguments.ofList args
  let iterations := arguments.iterations
  let threads := threads machine.cores
  let jobs := Jobs.run machine (.ofEnvironment machine.cores env) iterations
  { code := match jobs with
      | .ok _ => 0
      | .error _ => 1
    out :=
      title iterations
        ++ (Tally.run threads iterations).lines style threads iterations .zero
        ++ (Cache.run threads iterations).lines style threads iterations .zero
        ++ match jobs with
          | .ok jobs => jobs.lines style .zero
          | .error _ => []
    log := shown (arguments.threshold env) (Jobs.logOf jobs) }

end Interlock.Stress
