import Interlock.Condition.Waiting
import Interlock.Parking.Signal

/-!
# Parking on a condition variable

Where there is no futex, a flag behind a mutex says whether a signal is pending.  Each of the
steps below is one critical section of that mutex: a parking thread enters it once before it
sleeps and once after.
-/

namespace Interlock.Parking

/-- The shared state of a parking place. -/
structure Condvar where
  /-- Whether a signal is pending. -/
  pending : Bool := false
  /-- Threads that are parked, each in a call of its own; so a machine word can count them. -/
  parked : Nat := 0
  deriving DecidableEq, Repr, Inhabited

namespace Condvar

/-- Where a thread stands in parking. -/
inductive Park where
  /-- Before its first critical section. -/
  | arriving
  /-- Asleep on the condition. -/
  | asleep
  /-- Awake, before its second critical section. -/
  | returning
  | returned (signalled : Bool)
  deriving DecidableEq, Repr, Inhabited

/-- The end of parking: a thread counts itself out and takes the pending signal. -/
def leave (c : Condvar) : Bool × Condvar :=
  (c.pending, { c with pending := false, parked := c.parked - 1 })

/-- Takes a parking thread through its next critical section. -/
def stepPark (c : Condvar) : Park → Condvar × Park
  | .arriving =>
    let c := { c with parked := c.parked + 1 }
    if c.pending then
      let (signalled, c) := c.leave
      (c, .returned signalled)
    else (c, .asleep)
  | .returning =>
    let (signalled, c) := c.leave
    (c, .returned signalled)
  | .asleep => (c, .asleep)
  | .returned signalled => (c, .returned signalled)

/-- Leaves a signal, if anybody is parked; tells whether it did. -/
def signal (c : Condvar) : Bool × Condvar :=
  if c.parked = 0 then (false, c) else (true, { c with pending := true })

/-! ## Many threads -/

/-- A parking place with its sleepers in the order in which they fell asleep, and the parking
calls. -/
structure System where
  shared : Condvar := {}
  /-- The parking calls that sleep, by number. -/
  sleepers : List Nat := []
  parks : List Park := []
  deriving Repr, Inhabited

/-- What may happen next. -/
inductive Move where
  /-- A thread begins to park. -/
  | beginPark
  /-- A parking call takes its next step. -/
  | park (call : Nat)
  /-- A thread signals. -/
  | wake (signal : Signal)
  /-- A sleep ends without a signal. -/
  | endSleep (call : Nat)
  deriving DecidableEq, Repr, Inhabited

namespace System

/-- Ends the sleep of a parking call. -/
def rouse (s : System) (call : Nat) : System :=
  { s with
    sleepers := s.sleepers.filter (· ≠ call)
    parks := s.parks.set call .returning }

/-- Wakes the first `count` sleepers. -/
def wakeSleepers (s : System) (count : Nat) : System :=
  (s.sleepers.take count).foldl rouse s

/-- How many of the sleepers a signal wakes. -/
def reach (s : System) : Signal → Nat
  | .one => 1
  | .all => s.sleepers.length

/-- A parking call takes its next step.  A sleeping call has none. -/
def stepPark (s : System) (call : Nat) : System :=
  match s.parks[call]? with
  | none => s
  | some park =>
    match Condvar.stepPark s.shared park with
    | (shared, .asleep) =>
      { s with
        shared
        sleepers := if s.sleepers.contains call then s.sleepers else s.sleepers ++ [call]
        parks := s.parks.set call .asleep }
    | (shared, park) => { s with shared, parks := s.parks.set call park }

/-- Makes a move; one that is not possible changes nothing. -/
def move (s : System) : Move → System
  | .beginPark => { s with parks := s.parks ++ [.arriving] }
  | .park call => s.stepPark call
  | .wake signal =>
    match s.shared.signal with
    | (false, _) => s
    | (true, shared) => { s with shared }.wakeSleepers (s.reach signal)
  | .endSleep call => if s.sleepers.contains call then s.rouse call else s

end System

/-! ## One thread at a time -/

/-- A parking place used by one thread at a time, and what it did, latest first. -/
structure Solo where
  shared : Condvar := {}
  calls : List Condition.Call := []
  /-- The parked threads, counted at each sleep. -/
  seen : List Nat := []
  deriving Repr, Inhabited

namespace Solo

/-- Sends a signal. -/
def wake (signal : Signal) (s : Solo) : Solo :=
  match s.shared.signal with
  | (false, _) => s
  | (true, shared) =>
    let call : Condition.Call := if signal = .one then .notifyOne else .notifyAll
    { s with shared, calls := call :: s.calls }

/-- Parks until a signal arrives or time runs out; tells whether it was a signal.  If nothing is
known to happen in the sleep its time runs out, and without a timeout it never ends; then there is
no answer, and the thread stays parked. -/
def park (timeout : Option Duration) (during : Option Sleep) (s : Solo) : Option Bool × Solo :=
  match Condvar.stepPark s.shared .arriving with
  | (shared, .returned signalled) => (some signalled, { s with shared })
  | (shared, _) =>
    let call : Condition.Call :=
      match timeout with
      | none => .wait
      | some d => .waitFor d
    let s := { s with shared, calls := call :: s.calls }
    let awake (s : Solo) : Option Bool × Solo :=
      let (signalled, shared) := s.shared.leave
      (some signalled, { s with shared })
    match during, timeout with
    | some e, _ =>
      awake (e.during.foldl (fun s signal => s.wake signal)
        { s with seen := s.shared.parked :: s.seen })
    | none, some _ => awake s
    | none, none => (none, s)

end Solo

end Condvar

end Interlock.Parking
