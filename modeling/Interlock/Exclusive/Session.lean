import Interlock.Exclusive.Basic
import Interlock.Payload

/-!
# Using the exclusive lock

Guards, code run under the lock, and sequences of steps that threads take on one lock.  A guard
is released when it is dropped, and code run under the lock is followed by exactly one release,
however it ends.
-/

namespace Interlock.Exclusive

namespace State

variable {σ α : Type}

/-- Runs `body` under the lock, which the caller holds, and releases the lock however `body`
ends. -/
def runHeld (b : Mutex.Backend σ) (body : State σ → Ending α × State σ) (s : State σ) :
    Outcome α × State σ :=
  let (ending, s) := body s
  match ending, s.release b with
  | .ok value, (.ok (), s) => (.returned value, s)
  | .ok _, (.error f, s) => (.unwound (.text f.message), s)
  | .error payload, (.ok (), s) => (.unwound payload, s)
  | .error _, (.error _, s) => (.aborted, s)

/-- Acquires the lock, runs `body` and releases the lock. -/
def withLock (b : Mutex.Backend σ) (body : State σ → Ending α × State σ) (s : State σ) :
    Outcome α × State σ :=
  match s.acquire b with
  | (.done, s) => s.runHeld b body
  | (.held _, s) => (.blocked, s)
  | (.failed f, s) => (.unwound (.text f.message), s)

/-- Tries the lock and, if that succeeds, releases it again; tells whether it did. -/
def probe (b : Mutex.Backend σ) (s : State σ) : Ending Bool × State σ :=
  match s.tryAcquire b with
  | (.ok false, s) => (.ok false, s)
  | (.ok true, s) =>
    match s.release b with
    | (.ok (), s) => (.ok true, s)
    | (.error f, s) => (.error (.text f.message), s)
  | (.error f, s) => (.error (.text f.message), s)

end State

/-- A step of a thread on a lock; code run under the lock gives back an `α`. -/
inductive Step (α : Type) where
  | lock
  | tryLock
  | unlock
  /-- Acquires the lock with a guard, which is kept. -/
  | guard
  /-- Tries the lock; a guard is kept if that succeeds. -/
  | tryGuard
  /-- Drops the newest guard. -/
  | dropGuard
  /-- Runs code under the lock that ends as given. -/
  | withLock (body : Ending α)
  /-- Runs code that ends as given while holding a guard, and then tries the lock; the guard is
  dropped. -/
  | guardScope (body : Ending Unit)
  /-- Tries the lock and drops the guard at once. -/
  | tryGuardScope
  | setDebug (on : Bool)
  | clear
  | render
  deriving Inhabited

/-- What a step gives back. -/
inductive Reply (α : Type) where
  | nothing
  | flag (b : Bool)
  /-- The guards kept, counted. -/
  | guards (count : Nat)
  | value (v : α)
  | shown (text : String)
  | unwound (payload : Payload)
  | blocked
  | aborted
  deriving DecidableEq, Repr, Inhabited

/-- The reply to code run under the lock. -/
def Reply.ofOutcome {α β : Type} (value : β → Reply α) : Outcome β → Reply α
  | .returned a => value a
  | .unwound payload => .unwound payload
  | .blocked => .blocked
  | .aborted => .aborted

/-- The reply to an operation that faults or gives a result. -/
def Reply.ofExcept {α β : Type} (value : β → Reply α) : Except Fault β → Reply α
  | .ok a => value a
  | .error f => .unwound (.text f.message)

/-- A lock in use. -/
structure Session (σ : Type) where
  state : State σ
  /-- Guards that are kept. -/
  guards : Nat := 0
  /-- Threads blocked in a call of `lock`, with the failures they can still absorb. -/
  waiting : List (Nat × Nat) := []
  deriving Repr, Inhabited

namespace Session

variable {σ α : Type}

/-- Goes on from an attempt of `thread` to acquire the lock. -/
def settle (thread : Nat) (s : Session σ) : Attempt × State σ → Reply α × Session σ
  | (.done, state) => (.flag true, { s with state })
  | (.held left, state) => (.blocked, { s with state, waiting := s.waiting ++ [(thread, left)] })
  | (.failed f, state) => (.unwound (.text f.message), { s with state })

/-- Goes on with a call of `lock` in which `thread` is blocked. -/
def resume (b : Mutex.Backend σ) (thread : Nat) (s : Session σ) : Reply α × Session σ :=
  match s.waiting.find? (·.1 == thread) with
  | none => (.nothing, s)
  | some (_, left) =>
    { s with waiting := s.waiting.filter (·.1 != thread) }.settle thread (s.state.await b left)

/-- Takes a step of `thread`. -/
def perform (b : Mutex.Backend σ) (thread : Nat) (step : Step α) (s : Session σ) :
    Reply α × Session σ :=
  match step with
  | .lock => s.settle thread (s.state.acquire b)
  | .tryLock =>
    let (r, state) := s.state.tryAcquire b
    (.ofExcept .flag r, { s with state })
  | .unlock =>
    let (r, state) := s.state.release b
    (.ofExcept (fun _ => .nothing) r, { s with state })
  | .guard =>
    match s.state.acquire b with
    | (.done, state) => (.guards (s.guards + 1), { s with state, guards := s.guards + 1 })
    | (.held _, state) => (.blocked, { s with state })
    | (.failed f, state) => (.unwound (.text f.message), { s with state })
  | .tryGuard =>
    match s.state.tryAcquire b with
    | (.ok true, state) => (.guards (s.guards + 1), { s with state, guards := s.guards + 1 })
    | (.ok false, state) => (.nothing, { s with state })
    | (.error f, state) => (.unwound (.text f.message), { s with state })
  | .dropGuard =>
    match s.guards with
    | 0 => (.guards 0, s)
    | guards + 1 =>
      let (r, state) := s.state.release b
      (.ofExcept (fun _ => .guards guards) r, { s with state, guards })
  | .withLock body =>
    let (r, state) := s.state.withLock b fun state => (body, state)
    (.ofOutcome .value r, { s with state })
  | .guardScope body =>
    let (r, state) := s.state.withLock b fun state =>
      match body with
      | .ok () => state.probe b
      | .error payload => (.error payload, state)
    (.ofOutcome .flag r, { s with state })
  | .tryGuardScope =>
    let (r, state) := s.state.probe b
    match r with
    | .ok got => (.flag got, { s with state })
    | .error payload => (.unwound payload, { s with state })
  | .setDebug on =>
    (.flag on, { s with state.lock.debugging := on })
  | .clear => (.nothing, { s with state.lock := s.state.lock.clearCounters })
  | .render => (.shown s.state.lock.render, s)

/-- Takes steps of `thread` one after the other; the replies come in the same order. -/
def run (b : Mutex.Backend σ) (thread : Nat) :
    List (Step α) → Session σ → List (Reply α) × Session σ
  | [], s => ([], s)
  | step :: steps, s =>
    let (r, s) := s.perform b thread step
    let (rs, s) := run b thread steps s
    (r :: rs, s)

/-- Takes the lock down; guards that are still kept are forgotten. -/
def drop (b : Mutex.Backend σ) (s : Session σ) : Mutex.Wire σ := s.state.wire.destroy b

end Session

end Interlock.Exclusive
