import Interlock.Condition.Waiting
import Interlock.Counter
import Interlock.Worker.Status

/-!
# Worker slots

A slot is the meeting place of a worker and those who give it jobs: the worker's status, a cell
for one job, and the count of jobs that the worker has run.
-/

namespace Interlock.Worker

/-- A worker's slot; a job is known by its number. -/
structure Slot where
  status : Status := .notRunning
  cell : Option Nat := none
  jobsRun : Counter := {}
  deriving DecidableEq, Repr, Inhabited

namespace Slot

/-- Whether a signal reaches a thread. -/
def isAttached (s : Slot) : Bool := s.status.isAttached

/-- Signals the slot: everybody who waits at it is woken, unless no thread is attached. -/
def signal (s : Slot) : Bool × List Condition.Call :=
  if s.isAttached then (true, [.notifyAll]) else (false, [])

/-- Signals the slot from a thread that has it locked already.  The signal needs the lock, so this
never ends unless no thread is attached. -/
def signalLocked (s : Slot) : Option Bool := if s.isAttached then none else some false

/-- Whether the worker has got past its start. -/
def hasStarted (s : Slot) : Bool × Slot := (s.status != .starting, s)

/-- What happens during a wait at the slot: the worker may move, if the move is allowed. -/
def event (move : Option (Status × Status)) : Condition.Event Slot where
  act s :=
    match move with
    | none => (s, [])
    | some (source, target) =>
      match s.status.move source target with
      | .ok status => ({ s with status }, [])
      | .error _ => (s, [])

/-- Waits until the worker has got past its start. -/
def waitStarted (events : List (Condition.Event Slot)) (s : Slot) : Condition.Waited Slot :=
  Condition.lockWhen hasStarted events s

end Slot

end Interlock.Worker
