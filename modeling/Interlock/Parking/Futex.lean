import Interlock.Parking.Signal

/-!
# Parking on a futex

One word says whether a signal is pending, and a count tells how many threads are parked.  A
parking thread consumes a pending signal before it sleeps, and the kernel puts it to sleep only
while the word is still zero.  A signal stores the word first and wakes sleepers then.

`Park` and `Wake` are where a thread stands in the two operations.  Each of their steps is one
access to the shared state or one call of the kernel, so threads interleave at every point.
-/

namespace Interlock.Parking

/-- The shared state of a parking place. -/
structure Futex where
  /-- 1 while a signal is pending. -/
  word : UInt32 := 0
  /-- Threads that are parked, each in a call of its own; so a machine word can count them. -/
  parked : Nat := 0
  deriving DecidableEq, Repr, Inhabited

namespace Futex

/-- How many sleepers a signal wakes: one, or as many as the kernel counts. -/
def wakeCount : Signal → Nat
  | .one => 1
  | .all => 2147483647

/-- Whether a sleep that ended with this error number is worth a warning: running out of time,
finding the word changed and being interrupted are not. -/
def isSilent (code : Int) : Bool :=
  code == Errno.etimedout || code == Errno.eagain || code == Errno.eintr

/-- The warning about a sleep that failed, if it is worth one. -/
def warnings : SleepEnd → List Log.Line
  | .woken => []
  | .failed code =>
    if isSilent code then [] else [.warn ("futex wait failed: " ++ Errno.describe code)]

/-- Where a thread stands in parking; each name says what the next step does. -/
inductive Park where
  /-- Counting itself in. -/
  | arriving
  /-- Taking a pending signal. -/
  | consuming
  /-- Asking the kernel to be put to sleep. -/
  | sleeping
  /-- Asleep in the kernel's queue. -/
  | asleep
  /-- Taking a signal that arrived meanwhile; the sleep ended like this. -/
  | collecting (ending : SleepEnd)
  /-- Counting itself out; the call will return this. -/
  | leaving (signalled : Bool)
  | returned (signalled : Bool)
  deriving DecidableEq, Repr, Inhabited

/-- Takes a parking thread one step on, where the step touches only the shared state. -/
def stepPark (f : Futex) : Park → Futex × Park
  | .arriving => ({ f with parked := f.parked + 1 }, .consuming)
  | .consuming =>
    if f.word ≠ 0 then ({ f with word := 0 }, .leaving true) else ({ f with word := 0 }, .sleeping)
  | .collecting ending => ({ f with word := 0 }, .leaving (f.word ≠ 0 || ending = .woken))
  | .leaving signalled => ({ f with parked := f.parked - 1 }, .returned signalled)
  | .sleeping => (f, .sleeping)
  | .asleep => (f, .asleep)
  | .returned signalled => (f, .returned signalled)

/-- Where a thread stands in signalling; each name says what the next step does. -/
inductive Wake where
  /-- Looking whether anybody is parked. -/
  | looking
  /-- Storing the signal. -/
  | storing
  /-- Asking the kernel to wake sleepers. -/
  | waking
  | finished
  deriving DecidableEq, Repr, Inhabited

/-- Takes a signalling thread one step on, where the step touches only the shared state. -/
def stepWake (f : Futex) : Wake → Futex × Wake
  | .looking => (f, if f.parked = 0 then .finished else .storing)
  | .storing => ({ f with word := 1 }, .waking)
  | .waking => (f, .waking)
  | .finished => (f, .finished)

/-! ## Many threads -/

/-- A parking place with its sleepers in the order in which they fell asleep, and the calls in
progress. -/
structure System where
  shared : Futex := {}
  /-- The parking calls that sleep, by number. -/
  sleepers : List Nat := []
  parks : List Park := []
  wakes : List (Signal × Wake) := []
  deriving Repr, Inhabited

/-- What may happen next. -/
inductive Move where
  /-- A thread begins to park. -/
  | beginPark
  /-- A thread begins to signal. -/
  | beginWake (signal : Signal)
  /-- A parking call takes its next step. -/
  | park (call : Nat)
  /-- A signalling call takes its next step. -/
  | wake (call : Nat)
  /-- A sleep ends without a signal, with an error number. -/
  | endSleep (call : Nat) (code : Int)
  deriving DecidableEq, Repr, Inhabited

namespace System

/-- Ends the sleep of a parking call. -/
def rouse (s : System) (call : Nat) (ending : SleepEnd) : System :=
  { s with
    sleepers := s.sleepers.filter (· ≠ call)
    parks := s.parks.set call (.collecting ending) }

/-- The kernel puts a call to sleep, if the word is still zero. -/
def fallAsleep (s : System) (call : Nat) : System :=
  if s.shared.word = 0 then
    { s with sleepers := s.sleepers ++ [call], parks := s.parks.set call .asleep }
  else { s with parks := s.parks.set call (.collecting (.failed Errno.eagain)) }

/-- The kernel wakes the first `count` sleepers. -/
def wakeSleepers (s : System) (count : Nat) : System :=
  (s.sleepers.take count).foldl (fun s call => s.rouse call .woken) s

/-- A parking call takes its next step.  A sleeping call has none. -/
def stepPark (s : System) (call : Nat) : System :=
  match s.parks[call]? with
  | none => s
  | some .sleeping => s.fallAsleep call
  | some park =>
    let (shared, park) := Futex.stepPark s.shared park
    { s with shared, parks := s.parks.set call park }

/-- A signalling call takes its next step. -/
def stepWake (s : System) (call : Nat) : System :=
  match s.wakes[call]? with
  | none => s
  | some (signal, .waking) =>
    let s := s.wakeSleepers (wakeCount signal)
    { s with wakes := s.wakes.set call (signal, .finished) }
  | some (signal, wake) =>
    let (shared, wake) := Futex.stepWake s.shared wake
    { s with shared, wakes := s.wakes.set call (signal, wake) }

/-- Makes a move; one that is not possible changes nothing. -/
def move (s : System) : Move → System
  | .beginPark => { s with parks := s.parks ++ [.arriving] }
  | .beginWake signal => { s with wakes := s.wakes ++ [(signal, .looking)] }
  | .park call => s.stepPark call
  | .wake call => s.stepWake call
  | .endSleep call code => if s.sleepers.contains call then s.rouse call (.failed code) else s

end System

/-! ## One thread at a time -/

/-- A call that reaches the kernel. -/
inductive Call where
  | wait (word : UInt32) (timeout : Option Timespec)
  | wake (word : UInt32) (count : Nat)
  deriving DecidableEq, Repr

/-- The call in a record. -/
def Call.render : Call → String
  | .wait word timeout =>
    "wait word=" ++ toString word ++ " expect=0 timeout=" ++
      match timeout with
      | none => "none"
      | some t => toString t.sec.toInt ++ "s+" ++ toString t.nsec.toInt ++ "ns"
  | .wake word count => "wake word=" ++ toString word ++ " count=" ++ toString count

/-- A parking place used by one thread at a time, and what it did, latest first. -/
structure Solo where
  shared : Futex := {}
  calls : List Call := []
  /-- The parked threads, counted at each sleep. -/
  seen : List Nat := []
  log : List Log.Line := []
  deriving Repr, Inhabited

namespace Solo

/-- Sends a signal. -/
def wake (signal : Signal) (s : Solo) : Solo :=
  match Futex.stepWake s.shared .looking with
  | (shared, .storing) =>
    let (shared, _) := Futex.stepWake shared .storing
    { s with shared, calls := .wake shared.word (wakeCount signal) :: s.calls }
  | (shared, _) => { s with shared }

/-- The sleep of a parking call.  If nothing is known to happen in it, its time runs out. -/
def sleep (timeout : Option Duration) (sleep : Option Sleep) (s : Solo) : SleepEnd × Solo :=
  let s := { s with calls := .wait s.shared.word (timeout.map (·.toTimespec)) :: s.calls }
  match sleep with
  | none => (.failed Errno.etimedout, s)
  | some e =>
    (e.ending, e.during.foldl (fun s signal => s.wake signal)
      { s with seen := s.shared.parked :: s.seen })

/-- Parks until a signal arrives or time runs out; tells whether it was a signal. -/
def park (timeout : Option Duration) (during : Option Sleep) (s : Solo) : Bool × Solo :=
  let (shared, _) := Futex.stepPark s.shared .arriving
  match Futex.stepPark shared .consuming with
  | (shared, .leaving signalled) =>
    (signalled, { s with shared := (Futex.stepPark shared (.leaving signalled)).1 })
  | (shared, _) =>
    let (ending, s) := { s with shared }.sleep timeout during
    let s := { s with log := (warnings ending).reverse ++ s.log }
    match Futex.stepPark s.shared (.collecting ending) with
    | (shared, .leaving signalled) =>
      (signalled, { s with shared := (Futex.stepPark shared (.leaving signalled)).1 })
    | (shared, _) => (false, { s with shared })

end Solo

end Futex

end Interlock.Parking
