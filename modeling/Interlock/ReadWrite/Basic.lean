import Interlock.Counter
import Interlock.Limits
import Interlock.Log
import Interlock.ReadWrite.Raw

/-!
# The reader/writer lock, step by step

The lock remembers the token of the thread that writes and counts the readers, so that one
`release` gives back whichever mode the caller holds and only the writer can lower its lock.

An operation is a sequence of atomic steps: a call of the raw lock, or one access to one field.
`Activity` is where a thread stands in an operation and `step` takes it one step on, so that
operations of several threads interleave at every point.  A single thread's operation is the
iteration of `step`.
-/

namespace Interlock

namespace ReadWrite

/-- What one mode counts. -/
structure Tally where
  /-- Acquisitions whose first attempt was refused. -/
  busy : Counter := {}
  /-- Attempts after the first, and slices waited in vain. -/
  spin : Counter := {}
  deriving DecidableEq, Repr, Inhabited

/-- Why an operation fails. -/
inductive Fault where
  /-- There is nothing to release. -/
  | unlockUnheld
  /-- The caller is not the writer. -/
  | downgradeUnheld
  deriving DecidableEq, Repr, Inhabited

/-- The fault in words. -/
def Fault.message : Fault → String
  | .unlockUnheld => "ReadWriteLock: unlock without holding the lock"
  | .downgradeUnheld => "ReadWriteLock: downgrade without holding the write lock"

end ReadWrite

/-- The lock's own part: who holds it, its counters and settings. -/
structure ReadWrite where
  /-- Token of the writer, 0 when nobody writes. -/
  owner : Nat := 0
  /-- Readers inside, one for each share that a thread holds; so a machine word can count them. -/
  readers : Nat := 0
  reading : ReadWrite.Tally := {}
  writing : ReadWrite.Tally := {}
  /-- Write locks lowered to read locks. -/
  downgraded : Counter := {}
  /-- Whether contention is logged. -/
  debugging : Bool := false
  /-- Attempts between the first one and the timed slices. -/
  spinLimit : Nat := Limits.spins
  deriving DecidableEq, Repr, Inhabited

namespace ReadWrite

/-- Whether a thread is recorded as the writer. -/
def isWriteLocked (l : ReadWrite) : Bool := l.owner != 0

/-- The counters of a mode. -/
def tally (l : ReadWrite) : Mode → Tally
  | .read => l.reading
  | .write => l.writing

/-- Changes the counters of a mode. -/
def updateTally (l : ReadWrite) (f : Tally → Tally) : Mode → ReadWrite
  | .read => { l with reading := f l.reading }
  | .write => { l with writing := f l.writing }

/-- Counts an acquisition whose first attempt was refused. -/
def countBusy (l : ReadWrite) : Mode → ReadWrite :=
  l.updateTally fun t => { t with busy := t.busy.increment }

/-- Counts one more attempt, or a slice waited in vain. -/
def countSpin (l : ReadWrite) : Mode → ReadWrite :=
  l.updateTally fun t => { t with spin := t.spin.increment }

/-- All counters at zero. -/
def clearCounters (l : ReadWrite) : ReadWrite :=
  { l with reading := {}, writing := {}, downgraded := {} }

/-- The failures that may pass: the raw lock has none. -/
def spurious (_ : ReadWrite) : Nat := 0

/-- The lock as it is shown; `measured` writes the counters that depend on timing. -/
def renderWith (measured : Counter → String) (l : ReadWrite) : String :=
  "ReadWriteLock \x7b write_locked: " ++ toString l.isWriteLocked
    ++ ", readers: " ++ toString l.readers
    ++ ", read_busy: " ++ measured l.reading.busy
    ++ ", write_busy: " ++ measured l.writing.busy
    ++ ", downgraded: " ++ toString l.downgraded.value ++ " \x7d"

/-- The lock as it is shown. -/
def render (l : ReadWrite) : String := l.renderWith fun c => toString c.value

/-- A lock, the raw lock below it, and what went through between them, latest first. -/
structure State (σ : Type) where
  lock : ReadWrite
  world : σ
  calls : List RawCall := []
  log : List Log.Line := []
  deriving Repr, Inhabited

namespace State

variable {σ : Type}

/-- Changes the lock's own part. -/
def modify (f : ReadWrite → ReadWrite) (s : State σ) : State σ := { s with lock := f s.lock }

/-- Makes an attempt on the raw lock. -/
def attempt (raw : Raw σ) (mode : Mode) (timed : Bool) (s : State σ) : Bool × State σ :=
  let (granted, world) := raw.attempt mode timed s.world
  (granted, { s with world, calls := .attempt mode timed granted :: s.calls })

/-- Makes a call of the raw lock that always works. -/
def call (c : RawCall) (f : σ → σ) (s : State σ) : State σ :=
  { s with world := f s.world, calls := c :: s.calls }

/-- Logs a line. -/
def report (line : Log.Line) (s : State σ) : State σ := { s with log := line :: s.log }

/-- Logs a line about the lock while it is being debugged. -/
def note (text : String) (s : State σ) : State σ :=
  { s with log := Log.debugIf s.lock.debugging (Log.lockAddress ++ " " ++ text) s.log }

/-- Records the thread with token `me` as a holder. -/
def record (me : Nat) (mode : Mode) (s : State σ) : State σ :=
  s.modify fun l =>
    match mode with
    | .read => { l with readers := l.readers + 1 }
    | .write => { l with owner := me }

end State

/-- How an operation ended. -/
inductive Result where
  | acquired (level : Level)
  | released
  | lowered
  | failed (f : Fault)
  deriving DecidableEq, Repr, Inhabited

/-- Where a thread stands in an operation; each name says what the next step does. -/
inductive Activity where
  /-- The first attempt of a stage, with the stages that follow. -/
  | trying (stage : Stage) (rest : List Stage)
  /-- Counting that it was refused. -/
  | counting (stage : Stage) (rest : List Stage)
  /-- Logging that it was refused. -/
  | noting (stage : Stage) (rest : List Stage)
  /-- Counting a further attempt, behind which `left` more are allowed. -/
  | spinning (mode : Mode) (left : Nat)
  /-- Making that attempt. -/
  | retrying (mode : Mode) (left : Nat)
  /-- Waiting for one slice. -/
  | slicing (mode : Mode)
  /-- Counting a slice waited in vain. -/
  | tallying (mode : Mode)
  /-- Logging that it was in vain. -/
  | waitingOn (mode : Mode)
  /-- Recording the caller as a holder. -/
  | recording (mode : Mode)
  /-- Giving up the writer's place, if the caller has it. -/
  | releasing
  /-- Releasing the raw lock as the writer. -/
  | releasingExclusive
  /-- Taking one reader off, if there is one. -/
  | leaving
  /-- Releasing a share of the raw lock. -/
  | releasingShared
  /-- Looking whether the caller is the writer. -/
  | checking
  /-- Counting the caller as a reader. -/
  | joining
  /-- Giving up the writer's place. -/
  | disowning
  /-- Lowering the raw lock. -/
  | lowering
  /-- Counting the downgrade. -/
  | countingDowngrade
  /-- Logging the downgrade. -/
  | notingDowngrade
  | finished (r : Result)
  deriving DecidableEq, Repr, Inhabited

/-- An operation on the lock. -/
inductive Operation where
  | acquire (strategy : Strategy)
  | release
  | downgrade
  deriving DecidableEq, Repr, Inhabited

/-- Where an operation begins. -/
def Operation.start : Operation → Activity
  | .acquire strategy => .trying strategy.stages.1 strategy.stages.2
  | .release => .releasing
  | .downgrade => .checking

namespace Activity

/-- The attempts that are left, or the first slice when there are none. -/
def spinOn (mode : Mode) : Nat → Activity
  | 0 => .slicing mode
  | left + 1 => .spinning mode left

/-- The stage after one that obtained nothing. -/
def proceed : List Stage → Activity
  | [] => .finished (.acquired .unlocked)
  | stage :: rest => .trying stage rest

/-- The result, if the operation has ended. -/
def result? : Activity → Option Result
  | .finished r => some r
  | _ => none

/-- Whether the thread has nothing to do before another one acts: its operation has ended, or it
waits for a raw lock that is not granted. -/
def isSettled {σ : Type} (raw : Raw σ) (world : σ) : Activity → Bool
  | .finished _ => true
  | .slicing mode => raw.blocked mode world
  | _ => false

end Activity

/-- Takes the thread with token `me` one step on. -/
def step {σ : Type} (raw : Raw σ) (me : Nat) (s : State σ) : Activity → State σ × Activity
  | .trying stage rest =>
    match s.attempt raw stage.mode false with
    | (true, s) => (s, .recording stage.mode)
    | (false, s) => (s, .counting stage rest)
  | .counting stage rest => (s.modify (·.countBusy stage.mode), .noting stage rest)
  | .noting stage rest =>
    if stage.waits then
      (s.note (stage.mode.name ++ " busy"), .spinOn stage.mode s.lock.spinLimit)
    else
      (s.note (stage.mode.name ++ " try failed"), .proceed rest)
  | .spinning mode left => (s.modify (·.countSpin mode), .retrying mode left)
  | .retrying mode left =>
    match s.attempt raw mode false with
    | (true, s) => (s, .recording mode)
    | (false, s) => (s, .spinOn mode left)
  | .slicing mode =>
    match s.attempt raw mode true with
    | (true, s) => (s, .recording mode)
    | (false, s) => (s, .tallying mode)
  | .tallying mode => (s.modify (·.countSpin mode), .waitingOn mode)
  | .waitingOn mode => (s.note (mode.name ++ " still waiting"), .slicing mode)
  | .recording mode => (s.record me mode, .finished (.acquired mode.level))
  | .releasing =>
    if s.lock.owner = me then (s.modify fun l => { l with owner := 0 }, .releasingExclusive)
    else (s, .leaving)
  | .releasingExclusive => (s.call .unlockExclusive raw.unlockExclusive, .finished .released)
  | .leaving =>
    match s.lock.readers with
    | 0 => (s.report (.error (Fault.unlockUnheld).message), .finished (.failed .unlockUnheld))
    | readers + 1 => (s.modify fun l => { l with readers }, .releasingShared)
  | .releasingShared => (s.call .unlockShared raw.unlockShared, .finished .released)
  | .checking =>
    if s.lock.owner = me then (s, .joining)
    else
      (s.report (.error (Fault.downgradeUnheld).message), .finished (.failed .downgradeUnheld))
  | .joining => (s.modify fun l => { l with readers := l.readers + 1 }, .disowning)
  | .disowning => (s.modify fun l => { l with owner := 0 }, .lowering)
  | .lowering => (s.call .downgrade raw.downgrade, .countingDowngrade)
  | .countingDowngrade =>
    (s.modify fun l => { l with downgraded := l.downgraded.increment }, .notingDowngrade)
  | .notingDowngrade => (s.note "downgraded write -> read", .finished .lowered)
  | .finished r => (s, .finished r)

/-- Takes a thread on until it has nothing to do before another one acts, for at most the given
number of steps. -/
def drive {σ : Type} (raw : Raw σ) (me : Nat) : Nat → State σ × Activity → State σ × Activity
  | 0, c => c
  | fuel + 1, c =>
    if c.2.isSettled raw c.1.world then c else drive raw me fuel (step raw me c.1 c.2)

/-- Steps that suffice for any operation: three for each attempt and slice, and a few around. -/
def fuel {σ : Type} (raw : Raw σ) (s : State σ) : Nat :=
  4 * (s.lock.spinLimit + raw.patience s.world) + 32

/-- Carries out an operation of a thread as far as it gets on its own. -/
def operate {σ : Type} (raw : Raw σ) (me : Nat) (op : Operation) (s : State σ) :
    State σ × Activity :=
  drive raw me (fuel raw s) (s, op.start)

end ReadWrite

end Interlock
