import Interlock.Job.Basic
import Interlock.Worker.Slot

/-!
# Workers

A worker is a thread at its slot.  It attaches itself, and from then on waits for a job, runs it
and goes back to the idle queue, until the pool stops and the cell is empty.  A thread that unwinds
out of a job is over on the spot and leaves its slot as it is.
-/

namespace Interlock

namespace Worker

/-- Where a worker's thread stands; each name says what the next step does. -/
inductive Phase where
  /-- No thread was started. -/
  | unborn
  /-- Attaching itself to the slot. -/
  | attaching
  /-- Waking a submitter that is parked. -/
  | announcing
  /-- Looking for a job, and for a stop. -/
  | checking
  /-- Asleep at the slot, not notified. -/
  | waiting
  /-- Starting on the job it took. -/
  | beginning (job : Nat)
  /-- In the middle of a job, or broken: then the thread unwound out of the job and is over. -/
  | running (job : Nat) (phase : Job.Phase)
  /-- Going back to the idle queue. -/
  | resting
  /-- Detaching itself from the slot. -/
  | detaching
  /-- Logging that it leaves. -/
  | reporting
  /-- The thread is over, and not in a job; a payload tells that it unwound. -/
  | ended (payload : Option Payload)
  deriving Inhabited

end Worker

/-- A worker: its slot, where its thread stands, and how the thread ends after the last job. What it
leaves behind then can be dropped. -/
structure Worker where
  slot : Worker.Slot := {}
  phase : Worker.Phase := .unborn
  exit : Option Payload.Inert := none
  deriving Inhabited

namespace Worker

/-- How the thread ended, if it did. -/
def ended? (w : Worker) : Option (Option Payload) :=
  match w.phase with
  | .ended payload => some payload
  | .running _ (.broken payload) => some (some payload)
  | _ => none

/-- The job that the worker has taken and not finished. -/
def job? (w : Worker) : Option Nat :=
  match w.phase with
  | .beginning job => some job
  | .running job _ => some job
  | _ => none

/-- A thread that waits at the slot goes on when it is notified. -/
def notified (w : Worker) : Worker :=
  match w.phase with
  | .waiting => { w with phase := .checking }
  | _ => w

end Worker

end Interlock
