import Interlock.Pool.Error
import Interlock.Payload

/-!
# Calls of a pool

Where a thread stands in a call.  Each step is one critical section under a slot's lock, one
access to the idle queue, or one access to an atomic field; each name says what the next step
does.
-/

namespace Interlock.Pool

/-- The threads around a pool. -/
inductive Thread where
  | main
  /-- A thread left in a call of `submit` that waits for a worker. -/
  | submitter
  /-- A thread left in a call of `reap` that waits for jobs. -/
  | reaper
  | worker (index : Nat)
  deriving DecidableEq, Repr, Inhabited

/-- The name of a thread. -/
def Thread.name : Thread → String
  | .main => "main"
  | .submitter => "submitter"
  | .reaper => "reaper"
  | .worker index => "rksync-worker-" ++ toString index

/-- Signalling a slot. -/
inductive Nudge where
  /-- Looking whether there is such a slot with a thread attached. -/
  | looking (index : Nat)
  /-- Notifying whoever waits at the slot. -/
  | notifying (index : Nat)
  | done (reached : Bool)
  deriving DecidableEq, Repr, Inhabited

/-- Handing in a job.  `waited` tells that the idle queue was found empty before. -/
inductive Submission where
  /-- Looking for a stop. -/
  | arriving (waited : Bool)
  /-- Taking the first entry off the idle queue. -/
  | popping (waited : Bool)
  /-- Counting that there was none. -/
  | counting
  /-- Parked until a worker becomes idle or time runs out. -/
  | parking
  /-- Installing the job in the slot that was taken, unless the pool stops. -/
  | holding (index : Nat)
  /-- Signalling that slot. -/
  | nudging (index : Nat) (n : Nudge)
  | accepted (index : Nat)
  | refused
  /-- A check failed, and the caller unwinds. -/
  | broken (payload : Payload)
  deriving DecidableEq, Repr, Inhabited

/-- Stopping the workers and joining them. -/
inductive Reaping where
  /-- Looking whether it has been done. -/
  | arriving
  /-- Asking for a stop. -/
  | stopping
  /-- Claiming the reaper's role. -/
  | claiming
  /-- Without the role: looking whether the reaper is done. -/
  | awaiting
  /-- Asleep until the reaper is done, not notified. -/
  | asleep
  /-- With the role: looking again whether it has been done. -/
  | rechecking
  /-- Giving the role back unused. -/
  | cancelling
  /-- Waking every parked submitter. -/
  | broadcasting
  /-- Signalling the slots, one after the other. -/
  | nudging (index : Nat) (n : Nudge)
  /-- Taking the handles of the workers' threads. -/
  | collecting
  /-- Joining the threads that are left. -/
  | joining (left : List Nat) (joined : Nat)
  /-- Emptying the idle queue. -/
  | draining (joined : Nat)
  /-- Publishing that all workers have been joined. -/
  | marking (joined : Nat)
  /-- Giving the role back. -/
  | yielding (joined : Nat)
  /-- Waking those who wait for the reaper. -/
  | publishing (joined : Nat)
  /-- Logging how many threads were joined. -/
  | reporting (joined : Nat)
  | returned
  /-- Dropping what a joined thread left behind failed, and the caller unwinds.  It takes the role
  with it: nobody will be the reaper of this pool again. -/
  | broken (payload : Payload)
  deriving DecidableEq, Repr, Inhabited

/-- Making a pool. -/
inductive Creation where
  /-- Marking a slot as starting. -/
  | preparing (index : Nat)
  /-- Starting its thread. -/
  | spawning (index : Nat)
  /-- Keeping the handle of the thread. -/
  | storing (index : Nat)
  /-- The thread was not started: marking the slot as not running. -/
  | undoing (index : Nat) (reason : StartFailure)
  /-- Logging that. -/
  | noting (index : Nat) (reason : StartFailure)
  /-- Stopping and joining the threads that were started.  If that broke, the maker would drop the
  pool while it unwinds, and so wait for the lost reaper: it stays here. -/
  | rollingBack (index : Nat) (reason : StartFailure) (r : Reaping)
  /-- Dropping the pool. -/
  | dropping (index : Nat) (reason : StartFailure) (r : Reaping)
  /-- Looking whether a worker has got past its start. -/
  | awaiting (index : Nat)
  /-- Asleep at its slot, not notified. -/
  | asleep (index : Nat)
  /-- Logging that the pool is ready. -/
  | announcing
  | ready
  | failed (e : Error)
  /-- A check failed, and the caller unwinds. -/
  | broken (payload : Payload)
  deriving DecidableEq, Repr, Inhabited

/-- What a thread does with a pool. -/
inductive Activity where
  | submitting (job : Nat) (s : Submission)
  | reaping (r : Reaping)
  | nudging (n : Nudge)
  deriving DecidableEq, Repr, Inhabited

/-- A call in progress, or the result of one. -/
structure Call where
  thread : Thread
  activity : Activity
  deriving DecidableEq, Repr, Inhabited

/-- Whether a call has returned, or unwound. -/
def Activity.isOver : Activity → Bool
  | .submitting _ (.accepted _) => true
  | .submitting _ .refused => true
  | .submitting _ (.broken _) => true
  | .reaping .returned => true
  | .reaping (.broken _) => true
  | .nudging (.done _) => true
  | _ => false

/-- What a caller asks of a pool. -/
inductive Request where
  /-- Runs a task that ends as given; a gated task does not end before it is released. -/
  | submit (ending : Ending Unit) (gated : Bool)
  | reap
  /-- Signals the slot of a worker. -/
  | wake (index : Nat)
  deriving Inhabited

end Interlock.Pool
