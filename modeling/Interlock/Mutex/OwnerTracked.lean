import Interlock.PrimitiveError

/-!
# A mutex that tracks its owner itself

Where the system's mutex does not check its callers, the token of the thread that holds it is kept
beside it.  Tokens are not zero; zero means that nobody is recorded.
-/

namespace Interlock.Mutex

/-- A mutex without checks, and the token recorded for its holder. -/
structure OwnerTracked where
  /-- Whether the mutex without checks is taken. -/
  taken : Bool := false
  /-- The recorded token, 0 for none. -/
  owner : Nat := 0
  deriving DecidableEq, Repr, Inhabited

namespace OwnerTracked

/-- Locks the mutex for the thread with token `me`; none while the call is blocked. -/
def lock (me : Nat) (m : OwnerTracked) : Option (Except PrimitiveError Unit × OwnerTracked) :=
  if m.owner = me then some (.error (.misuse "mutex_lock" Errno.edeadlk), m)
  else if m.taken then none
  else some (.ok (), ⟨true, me⟩)

/-- Locks the mutex for the thread with token `me` if it is free, and tells whether it did. -/
def tryLock (me : Nat) (m : OwnerTracked) : Except PrimitiveError Bool × OwnerTracked :=
  if m.taken then (.ok false, m) else (.ok true, ⟨true, me⟩)

/-- Unlocks the mutex for the thread with token `me`. -/
def unlock (me : Nat) (m : OwnerTracked) : Except PrimitiveError Unit × OwnerTracked :=
  if m.owner = me then (.ok (), ⟨false, 0⟩)
  else (.error (.misuse "mutex_unlock" Errno.eperm), m)

end OwnerTracked

end Interlock.Mutex
