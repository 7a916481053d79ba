import Interlock.Mutex.ErrorChecking
import Interlock.Mutex.OwnerTracked
import Interlock.ReadWrite.System

/-!
# Threads sharing a mutex

What threads ask of a mutex, as one call that answers at once, and for the mutex that tracks its
owner also as the steps that the call takes.  Each step is one access of the mutex without checks or
of the recorded token, and other threads take theirs in between: the token is read by threads that
do not hold the mutex, it is recorded after the mutex was taken and wiped before it is let go.
-/

namespace Interlock.Mutex

/-- What a thread may ask of a mutex. -/
inductive Request where
  | lock
  | tryLock
  | unlock
  deriving DecidableEq, Repr, Inhabited

namespace Answer

/-- The answer to a call that gives nothing back. -/
def ofUnit : Except PrimitiveError Unit → Answer
  | .ok () => .done
  | .error e => .failed e

/-- The answer to a call that tells whether it took the mutex. -/
def ofBool : Except PrimitiveError Bool → Answer
  | .ok true => .done
  | .ok false => .held
  | .error e => .failed e

end Answer

/-- The call of the thread with token `me`; none while it is blocked. -/
def OwnerTracked.ask (me : Nat) (m : OwnerTracked) : Request → Option (Answer × OwnerTracked)
  | .lock => (m.lock me).map (Prod.map .ofUnit id)
  | .tryLock => some (Prod.map .ofBool id (m.tryLock me))
  | .unlock => some (Prod.map .ofUnit id (m.unlock me))

/-- The call of `thread`; none while it is blocked. -/
def ErrorChecking.ask (thread : Nat) (m : ErrorChecking) :
    Request → Option (Answer × ErrorChecking)
  | .lock => (m.lock thread).map (Prod.map .ofUnit id)
  | .tryLock => some (Prod.map .ofBool id (m.tryLock thread))
  | .unlock => some (Prod.map .ofUnit id (m.unlock thread))

/-! ## A call in steps -/

/-- Where a thread stands in a call of the mutex that tracks its owner. -/
inductive Place where
  /-- Locking: about to read the recorded token. -/
  | claiming
  /-- Locking: about to take the mutex, or waiting for it. -/
  | acquiring
  /-- Trying: about to take the mutex if it is free. -/
  | trying
  /-- Has taken the mutex and is about to record its token. -/
  | recording
  /-- Unlocking: about to read the recorded token. -/
  | checking
  /-- Unlocking: about to wipe the recorded token. -/
  | clearing
  /-- Unlocking: about to let the mutex go. -/
  | releasing
  /-- Between calls, with the answer to the last one if there was one. -/
  | idle (last : Option Answer)
  deriving DecidableEq, Repr, Inhabited

/-- Where a call begins. -/
def Request.start : Request → Place
  | .lock => .claiming
  | .tryLock => .trying
  | .unlock => .checking

namespace Place

/-- Takes the thread with token `me` one step on.  A thread that waits for the mutex stays where it
is. -/
def step (me : Nat) (m : OwnerTracked) : Place → OwnerTracked × Place
  | .claiming =>
    if m.owner = me then (m, .idle (some (.failed (.misuse "mutex_lock" Errno.edeadlk))))
    else (m, .acquiring)
  | .acquiring => if m.taken then (m, .acquiring) else ({ m with taken := true }, .recording)
  | .trying =>
    if m.taken then (m, .idle (some .held)) else ({ m with taken := true }, .recording)
  | .recording => ({ m with owner := me }, .idle (some .done))
  | .checking =>
    if m.owner = me then (m, .clearing)
    else (m, .idle (some (.failed (.misuse "mutex_unlock" Errno.eperm))))
  | .clearing => ({ m with owner := 0 }, .releasing)
  | .releasing => ({ m with taken := false }, .idle (some .done))
  | .idle last => (m, .idle last)

/-- Whether a thread at this place is in no call. -/
def isIdle : Place → Bool
  | .idle _ => true
  | _ => false

/-- Takes the thread with token `me` on while no other thread takes a step. -/
def walk (me : Nat) : Nat → OwnerTracked × Place → OwnerTracked × Place
  | 0, here => here
  | n + 1, (m, place) => walk me n (place.step me m)

end Place

/-! ## Threads in any order -/

/-- A mutex that tracks its owner, and where each thread stands. -/
structure Sharing where
  mutex : OwnerTracked := {}
  places : Nat → Place := fun _ => .idle none
  deriving Inhabited

namespace Sharing

/-- What may happen next. -/
inductive Move where
  | start (thread : Nat) (request : Request)
  | step (thread : Nat)
  deriving DecidableEq, Repr, Inhabited

/-- What threads have, with `thread` having `a`. -/
def put {α : Type} (thread : Nat) (a : α) (of : Nat → α) : Nat → α :=
  fun t => if t = thread then a else of t

@[simp] theorem put_self {α : Type} (thread : Nat) (a : α) (of : Nat → α) :
    put thread a of thread = a := if_pos rfl

theorem put_of_ne {α : Type} {thread t : Nat} (h : t ≠ thread) (a : α) (of : Nat → α) :
    put thread a of t = of t := if_neg h

/-- Makes a move.  A thread begins a call only when its last one has ended. -/
def move (tokens : ReadWrite.Tokens) (s : Sharing) : Move → Sharing
  | .start thread request =>
    if (s.places thread).isIdle then { s with places := put thread request.start s.places } else s
  | .step thread =>
    let (mutex, place) := (s.places thread).step (tokens.of thread) s.mutex
    ⟨mutex, put thread place s.places⟩

/-- The mutex after some moves. -/
def run (tokens : ReadWrite.Tokens) (moves : List Move) : Sharing := moves.foldl (move tokens) {}

end Sharing

end Interlock.Mutex
