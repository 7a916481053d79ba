import Interlock.Pool.Session

/-!
# A pool under load

A pool runs jobs one after the other.  Then two threads stop it, and it refuses another job.
-/

namespace Interlock.Stress

/-- What a pool did under load. -/
structure Jobs where
  done : Nat
  workers : Nat
  /-- Submissions that waited for a worker. -/
  waited : Counter
  panicked : Nat
  reaped : Bool
  live : Counter
  log : List Log.Line

namespace Jobs

/-- Hands in jobs that all come to an end. -/
def submit (iterations : Nat) (s : Pool.Session) : Pool.Session :=
  iterations.fold (fun _ _ s => (s.submit (.ok ()) false).2) s

/-- Jobs of a pool of which something holds. -/
def count (p : Job.State → Bool) (pool : Pool) : Nat := pool.jobs.countP fun e => p e.state

/-- What a pool logged. -/
def logged (pool : Pool) : List Log.Line := pool.log.toList.map (·.2)

/-- Runs a pool with the given configuration on a machine.  Of a pool that cannot be made there is
only the log, which ends with the reason. -/
def run (machine : Machine) (config : Pool.Config) (iterations : Nat) :
    Except (List Log.Line) Jobs :=
  let made := Pool.Session.start config fun _ => config.startThread machine none
  match made.pool.creation with
  | .failed e => .error (logged made.pool ++ [.error ("pool stress failed: " ++ e.message)])
  | _ =>
    let ready := { made with pool := made.pool.report .main config.summary }
    let worked := submit iterations ready
    let stopped := worked.reap.2.reap.2
    let refused := (stopped.submit (.ok ()) false).2
    .ok {
      done := count (·.status.isCompleted) worked.pool
      workers := worked.pool.size
      waited := worked.pool.backpressure
      panicked := count (·.panicked) worked.pool
      reaped := stopped.pool.control.isReaped
      live := stopped.pool.live
      log := logged refused.pool }

end Jobs

end Interlock.Stress
