import Interlock.Counter
import Interlock.Limits
import Interlock.Mutex.Call

/-!
# The exclusive lock

A lock over one mutex.  Every acquisition begins with a try; only when the mutex is in other
hands is the event counted as busy, the try repeated a bounded number of times, and at last a
blocking call made.

A call of the mutex that fails for a reason that may pass is repeated, at most
`Limits.spuriousRetries` times for the whole operation.  Past that bound, or when the mutex finds
that its rules were broken, the operation fails for good.
-/

namespace Interlock

/-- The lock's own part: its counters and settings. -/
structure Exclusive where
  /-- Acquisitions whose first try found the mutex in other hands. -/
  busy : Counter := {}
  /-- Tries made again, while contended or after a failure that may pass. -/
  spin : Counter := {}
  /-- Failures that may pass. -/
  spurious : Counter := {}
  /-- Whether contention is logged. -/
  debugging : Bool := false
  /-- Tries between the first one and the blocking call. -/
  spinLimit : Nat := Limits.spins
  deriving DecidableEq, Repr, Inhabited

namespace Exclusive

/-- Why an operation fails for good. -/
inductive Fault where
  /-- The system did not make the mutex. -/
  | refused (e : PrimitiveError)
  /-- The mutex found its rules broken. -/
  | misuse (e : PrimitiveError)
  /-- A call failed once more than the operation absorbs. -/
  | exhausted (e : PrimitiveError)
  deriving DecidableEq, Repr, Inhabited

/-- The fault in words. -/
def Fault.message : Fault → String
  | .refused e => "ExclusiveLock::new: " ++ e.describe
  | .misuse e => "ExclusiveLock: " ++ e.describe
  | .exhausted e => "ExclusiveLock: retry bound exceeded: " ++ e.describe

/-- The lock as it is shown; `measured` writes the counters that depend on timing. -/
def renderWith (measured : Counter → String) (l : Exclusive) : String :=
  "ExclusiveLock \x7b busy: " ++ measured l.busy ++ ", spin: " ++ measured l.spin
    ++ ", spurious_errors: " ++ toString l.spurious.value
    ++ ", debugging: " ++ toString l.debugging ++ " \x7d"

/-- The lock as it is shown. -/
def render (l : Exclusive) : String := l.renderWith fun c => toString c.value

/-- All counters at zero. -/
def clearCounters (l : Exclusive) : Exclusive :=
  { l with busy := .zero, spin := .zero, spurious := .zero }

/-- A lock and its connection to the mutex. -/
structure State (σ : Type) where
  lock : Exclusive
  wire : Mutex.Wire σ
  deriving Repr, Inhabited

/-- How an attempt on the mutex stands. -/
inductive Attempt where
  | done
  /-- The mutex is in other hands; so many failures can still be absorbed. -/
  | held (left : Nat)
  | failed (f : Fault)
  deriving DecidableEq, Repr, Inhabited

namespace State

variable {σ : Type}

/-- Makes a call of the mutex. -/
def ask (b : Mutex.Backend σ) (op : Mutex.Op) (s : State σ) : Mutex.Answer × State σ :=
  let (answer, wire) := s.wire.ask b op
  (answer, { s with wire })

/-- Logs a line. -/
def report (line : Log.Line) (s : State σ) : State σ := { s with wire := s.wire.report line }

/-- Logs the fault that ends an operation. -/
def fail (f : Fault) (s : State σ) : Attempt × State σ :=
  (.failed f, s.report (.error f.message))

/-- Counts one more try. -/
def countSpin (s : State σ) : State σ :=
  { s with lock := { s.lock with spin := s.lock.spin.increment } }

/-- Counts a failure that may pass. -/
def countSpurious (s : State σ) : State σ :=
  { s with lock := { s.lock with spurious := s.lock.spurious.increment } }

/-- Counts an acquisition that found the mutex in other hands. -/
def countBusy (s : State σ) : State σ :=
  { s with lock := { s.lock with busy := s.lock.busy.increment } }

/-- Absorbs a failure that may pass: counts it and the try that follows, and warns. -/
def absorb (e : PrimitiveError) (s : State σ) : State σ :=
  s.countSpurious.countSpin.report
    (.warn (Log.lockAddress ++ " retrying after " ++ e.describe))

/-- Says that the lock is busy and how often it will be tried again. -/
def noteBusy (s : State σ) : State σ :=
  { s with wire := { s.wire with
      log := Log.debugIf s.lock.debugging
        (Log.lockAddress ++ " busy, spinning up to " ++ toString s.lock.spinLimit) s.wire.log } }

/-- Makes a call again and again while it fails for reasons that may pass and `left` of those can
still be absorbed. -/
def persist (b : Mutex.Backend σ) (op : Mutex.Op) : Nat → State σ → Attempt × State σ
  | left, s =>
    match s.ask b op with
    | (.done, s) => (.done, s)
    | (.held, s) => (.held left, s)
    | (.failed e, s) =>
      if e.isSpurious then
        match left with
        | 0 => s.countSpurious.fail (.exhausted e)
        | left + 1 => persist b op left (s.absorb e)
      else s.fail (.misuse e)

/-- Tries the mutex `spins` times more, while `left` failures can still be absorbed. -/
def spinOn (b : Mutex.Backend σ) : Nat → Nat → State σ → Attempt × State σ
  | 0, left, s => (.held left, s)
  | spins + 1, left, s =>
    match s.countSpin.ask b .tryLock with
    | (.done, s) => (.done, s)
    | (.held, s) => spinOn b spins left s
    | (.failed e, s) =>
      if e.isSpurious then
        match left with
        | 0 => s.countSpurious.fail (.exhausted e)
        | left + 1 => spinOn b spins left (s.absorb e)
      else s.fail (.misuse e)

/-- Waits for the mutex in a blocking call.  The attempt stays `held` while the call does not
return; it is taken up again by the same function. -/
def await (b : Mutex.Backend σ) (left : Nat) (s : State σ) : Attempt × State σ :=
  s.persist b .lock left

/-- Acquires the lock: a try, then the bounded retries, then the blocking call. -/
def acquire (b : Mutex.Backend σ) (s : State σ) : Attempt × State σ :=
  match s.persist b .tryLock Limits.spuriousRetries with
  | (.held left, s) =>
    match s.countBusy.noteBusy.spinOn b s.lock.spinLimit left with
    | (.held left, s) => s.await b left
    | ended => ended
  | ended => ended

/-- Acquires the lock if the mutex is free, and tells whether it did. -/
def tryAcquire (b : Mutex.Backend σ) (s : State σ) : Except Fault Bool × State σ :=
  match s.persist b .tryLock Limits.spuriousRetries with
  | (.done, s) => (.ok true, s)
  | (.held _, s) => (.ok false, s.countBusy)
  | (.failed f, s) => (.error f, s)

/-- Releases the lock.  An unlock is never answered with a held mutex. -/
def release (b : Mutex.Backend σ) (s : State σ) : Except Fault Unit × State σ :=
  match s.persist b .unlock Limits.spuriousRetries with
  | (.done, s) => (.ok (), s)
  | (.held _, s) => (.ok (), s)
  | (.failed f, s) => (.error f, s)

end State

/-! ## Making and taking down -/

/-- Makes a mutex with checks.  Its attributes are taken down again on every path. -/
def createMutex {σ : Type} (b : Mutex.Backend σ) (p : Mutex.Wire σ) :
    Except PrimitiveError Unit × Mutex.Wire σ :=
  let (code, p) := p.call b .attrInit
  match PrimitiveError.check Mutex.Op.attrInit.symbol code with
  | .error e => (.error e, p)
  | .ok () =>
    let (code, p) := p.call b .attrSettype
    let (code, p) := if code = 0 then p.call b .init else (code, p)
    let (_, p) := p.call b .attrDestroy
    (PrimitiveError.check Mutex.Op.init.symbol code, p)

/-- Makes a lock with its own number of retries. -/
def create {σ : Type} (b : Mutex.Backend σ) (spinLimit : Nat) (p : Mutex.Wire σ) :
    Except PrimitiveError Exclusive × Mutex.Wire σ :=
  match createMutex b p with
  | (.ok (), p) => (.ok { spinLimit }, p)
  | (.error e, p) => (.error e, p)

/-- Makes a lock where a refusal is a fault. -/
def createOrFail {σ : Type} (b : Mutex.Backend σ) (spinLimit : Nat) (p : Mutex.Wire σ) :
    Except Fault Exclusive × Mutex.Wire σ :=
  match create b spinLimit p with
  | (.ok lock, p) => (.ok lock, p)
  | (.error e, p) => (.error (.refused e), p.report (.error (Fault.refused e).message))

end Exclusive

end Interlock
