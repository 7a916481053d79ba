import Interlock.Errno
import Interlock.Errno.Message
import Interlock.Machine
import Interlock.Payload
import Interlock.Pool.Config

/-!
# Errors of a pool

A pool is not made because its configuration is bad or a worker's thread cannot be started; a job
is not accepted because the pool is stopping.
-/

namespace Interlock.Pool

/-- Why the operating system did not start a thread. -/
inductive StartFailure where
  /-- In the words of who reports it. -/
  | described (text : String)
  | wouldBlock
  | outOfMemory
  | permissionDenied
  | unspecified
  /-- An error number of the operating system. -/
  | os (code : Int)
  deriving DecidableEq, Repr, Inhabited

/-- The reason in words. -/
def StartFailure.message : StartFailure → String
  | .described text => text
  | .wouldBlock => "operation would block"
  | .outOfMemory => "out of memory"
  | .permissionDenied => "permission denied"
  | .unspecified => "other error"
  | .os code => Errno.message code ++ " (os error " ++ toString code ++ ")"

/-- Why a machine starts no thread with a stack of that many bytes.  A stack is mapped next to a
guard page, and the size of both must be a 64-bit number; a mapping that the whole memory could
not hold is refused, whatever else is in use. -/
def StartFailure.ofStack? (machine : Machine) (bytes : Nat) : Option StartFailure :=
  if bytes + 0x1000 ≥ 0x10000000000000000 then some (.os Errno.einval)
  else if bytes > machine.memory then some (.os Errno.eagain)
  else none

/-- Starts a thread with the stack that a configuration asks for; the thread ends with `exit`. -/
def Config.startThread (machine : Machine) (config : Config) (exit : Option Payload.Inert) :
    Except StartFailure (Option Payload.Inert) :=
  match StartFailure.ofStack? machine config.stackSize with
  | some reason => .error reason
  | none => .ok exit

/-- What a pool answers instead of working. -/
inductive Error where
  /-- The thread of a worker could not be started; the pool was rolled back. -/
  | spawn (index : Nat) (reason : StartFailure)
  /-- The pool is stopping, or it has been reaped. -/
  | stopped
  /-- The configuration was rejected. -/
  | invalidConfig (reason : ConfigError)
  deriving DecidableEq, Repr, Inhabited

namespace Error

/-- The error in words. -/
def message : Error → String
  | .spawn index reason =>
    "failed to spawn worker thread " ++ toString index ++ ": " ++ reason.message
  | .stopped => "thread pool is stopped"
  | .invalidConfig reason => reason.message

/-- The error behind this one, if there is one, in words. -/
def source? : Error → Option String
  | .spawn _ reason => some reason.message
  | .stopped => none
  | .invalidConfig _ => none

end Error

end Interlock.Pool
