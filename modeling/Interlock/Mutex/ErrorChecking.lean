import Interlock.Mutex.Call

/-!
# The error-checking mutex

A mutex that knows its owner: locking it again from the owner and unlocking it from any other
thread are answered with an error instead of blocking for ever or breaking the mutex.
-/

namespace Interlock.Mutex

/-- A mutex and the thread that holds it. -/
structure ErrorChecking where
  owner : Option Nat := none
  deriving DecidableEq, Repr, Inhabited

namespace ErrorChecking

/-- Whether a `lock` by `thread` waits for another thread. -/
def blocks (thread : Nat) (m : ErrorChecking) : Bool :=
  match m.owner with
  | none => false
  | some owner => owner != thread

/-- The answer to a call by `thread`.  A `lock` is answered once it does not block. -/
def answer (thread : Nat) (op : Op) (m : ErrorChecking) : Int × ErrorChecking :=
  match op with
  | .tryLock =>
    match m.owner with
    | none => (0, ⟨some thread⟩)
    | some _ => (Errno.ebusy, m)
  | .lock => if m.owner = some thread then (Errno.edeadlk, m) else (0, ⟨some thread⟩)
  | .unlock => if m.owner = some thread then (0, ⟨none⟩) else (Errno.eperm, m)
  | .destroy => if m.owner.isSome then (Errno.ebusy, m) else (0, m)
  | .attrInit => (0, m)
  | .attrSettype => (0, m)
  | .attrDestroy => (0, m)
  | .init => (0, m)

/-- The mutex as `thread` sees it. -/
def backend (thread : Nat) : Backend ErrorChecking where
  answer := answer thread
  blocks := blocks thread

/-- Locks the mutex for `thread`; none while the call is blocked. -/
def lock (thread : Nat) (m : ErrorChecking) :
    Option (Except PrimitiveError Unit × ErrorChecking) :=
  if m.blocks thread then none
  else
    let (code, m) := m.answer thread .lock
    some (PrimitiveError.check Op.lock.symbol code, m)

/-- Locks the mutex for `thread` if it is free, and tells whether it did. -/
def tryLock (thread : Nat) (m : ErrorChecking) : Except PrimitiveError Bool × ErrorChecking :=
  let (code, m) := m.answer thread .tryLock
  match Op.tryLock.read code with
  | .done => (.ok true, m)
  | .held => (.ok false, m)
  | .failed e => (.error e, m)

/-- Unlocks the mutex for `thread`. -/
def unlock (thread : Nat) (m : ErrorChecking) : Except PrimitiveError Unit × ErrorChecking :=
  let (code, m) := m.answer thread .unlock
  (PrimitiveError.check Op.unlock.symbol code, m)

end ErrorChecking

end Interlock.Mutex
