import Interlock.Duration
import Interlock.Errno
import Interlock.Log

/-!
# Signals to parked threads

Threads that find no capacity park; whoever has capacity to give wakes one of them or all.  Both
kinds of parking place tell a caller whether it was woken by a signal.
-/

namespace Interlock.Parking

/-- Whom a signal is meant for. -/
inductive Signal where
  | one
  | all
  deriving DecidableEq, Repr, Inhabited

/-- How a sleep ends. -/
inductive SleepEnd where
  /-- By a signal. -/
  | woken
  /-- For another reason, given as an error number. -/
  | failed (code : Int)
  deriving DecidableEq, Repr, Inhabited

/-- The end of a sleep from the system's answer. -/
def SleepEnd.ofCode (code : Int) : SleepEnd := if code = 0 then .woken else .failed code

/-- What happens during one sleep: signals from other threads, and then its end. -/
structure Sleep where
  during : List Signal := []
  ending : SleepEnd := .failed Errno.etimedout
  deriving DecidableEq, Repr, Inhabited

end Interlock.Parking
