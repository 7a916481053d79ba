import Interlock.Pool.Call
import Interlock.Pool.Control
import Interlock.Worker.Basic

/-!
# The pool

The shared state of a pool, its workers, the threads that make calls of it, and the jobs.  Below
the type stand the small changes of which the steps of a pool are made.
-/

namespace Interlock

namespace Pool

/-- A job that was handed in. -/
structure Entry where
  state : Job.State := {}
  /-- How its task ends. -/
  ending : Ending Unit
  /-- Whether its task may end. -/
  released : Bool
  deriving Inhabited

end Pool

/-- A pool of workers and everything around it. -/
structure Pool where
  config : Pool.Config
  /-- How starting the thread of each worker goes: it is refused, or the thread ends as given
  after its last job, and leaves nothing that cannot be dropped. -/
  spawner : Nat → Except Pool.StartFailure (Option Payload.Inert)
  workers : List Worker
  /-- The idle queue, first in front. -/
  idle : List Nat := []
  control : Pool.Control := {}
  /-- Workers attached to their slots. -/
  live : Counter := {}
  /-- Submissions that found no idle worker. -/
  backpressure : Counter := {}
  /-- Workers' threads that nobody has taken to join. -/
  handles : List Nat := []
  /-- Whether the reaper is done, as those who wait for it see. -/
  reaped : Bool := false
  creation : Pool.Creation
  /-- The workers whose threads were asked for, latest first. -/
  spawned : List Nat := []
  jobs : Array Pool.Entry := #[]
  calls : Array Pool.Call := #[]
  /-- What was logged, and by whom. -/
  log : Array (Pool.Thread × Log.Line) := #[]

namespace Pool

/-- A pool about to be made.  A bad configuration fails before any thread is asked for. -/
def create (config : Config) (spawner : Nat → Except StartFailure (Option Payload.Inert)) : Pool :=
  match config.validate with
  | .error e => { config, spawner, workers := [], creation := .failed (.invalidConfig e) }
  | .ok () =>
    { config, spawner, workers := List.replicate config.workers {}, creation := .preparing 0 }

/-- Worker slots. -/
def size (p : Pool) : Nat := p.workers.length

/-- The status of a worker. -/
def status? (p : Pool) (index : Nat) : Option Worker.Status :=
  (p.workers[index]?).map (·.slot.status)

/-- The jobs that a worker has run. -/
def jobsRun? (p : Pool) (index : Nat) : Option Counter :=
  (p.workers[index]?).map (·.slot.jobsRun)

/-- The pool as it is shown. -/
def render (p : Pool) : String :=
  "ThreadPool \x7b threads: " ++ toString p.size ++ ", live: " ++ toString p.live.value
    ++ ", idle: " ++ toString p.idle.length
    ++ ", control: " ++ toString p.control.flags.bits ++ " \x7d"

/-! ## Small changes -/

/-- Logs a line. -/
def report (who : Thread) (line : Log.Line) (p : Pool) : Pool :=
  { p with log := p.log.push (who, line) }

/-- Logs lines, in order. -/
def reportAll (who : Thread) (lines : List Log.Line) (p : Pool) : Pool :=
  lines.foldl (fun p line => p.report who line) p

/-- Logs a line about the workers' lifecycle, if that is asked for. -/
def note (who : Thread) (text : String) (p : Pool) : Pool :=
  if p.config.debugLogging then p.report who (.debug text) else p

/-- Changes a worker. -/
def updateWorker (index : Nat) (f : Worker → Worker) (p : Pool) : Pool :=
  { p with workers := p.workers.modify index f }

/-- Puts a worker's thread somewhere else. -/
def setPhase (index : Nat) (phase : Worker.Phase) : Pool → Pool :=
  updateWorker index fun w => { w with phase }

/-- Sets the status of a worker. -/
def setStatus (index : Nat) (status : Worker.Status) : Pool → Pool :=
  updateWorker index fun w => { w with slot.status := status }

/-- Fills or empties the cell of a worker. -/
def setCell (index : Nat) (cell : Option Nat) : Pool → Pool :=
  updateWorker index fun w => { w with slot.cell := cell }

/-- Moves a worker's status along its table.  A refused move is logged, and the payload is what
its maker unwinds with. -/
def advance (who : Thread) (index : Nat) (source target : Worker.Status) (p : Pool) :
    Option Payload × Pool :=
  match p.workers[index]? with
  | none => (none, p)
  | some w =>
    match w.slot.status.move source target with
    | .ok status =>
      (none, (p.setStatus index status).note who
        ("worker " ++ toString index ++ ": " ++ source.name ++ " -> " ++ target.name))
    | .error m => (some (.text m.message), p.report who (.error m.message))

/-- Puts a worker at the end of the idle queue, which has room for every worker once. -/
def pushIdle (who : Thread) (index : Nat) (p : Pool) : Pool :=
  if p.idle.length < p.size then { p with idle := p.idle ++ [index] }
  else p.report who (.error ("idle queue full, worker " ++ toString index ++ " dropped"))

/-- Notifies everybody who waits at a slot: its worker, and whoever makes the pool. -/
def notify (index : Nat) (p : Pool) : Pool :=
  { p.updateWorker index Worker.notified with
    creation := if p.creation = .asleep index then .awaiting index else p.creation }

/-- Notifies everybody who waits for the reaper. -/
def notifyReaped (p : Pool) : Pool :=
  { p with calls := p.calls.map fun c =>
      if c.activity = .reaping .asleep then { c with activity := .reaping .awaiting } else c }

end Pool

end Interlock
