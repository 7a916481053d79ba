import Interlock.Condition.Waiting
import Interlock.Payload

/-!
# The condition lock

A value behind a mutex, with a condition to wait on.  Its holder may store a value, and whoever
stores one for others to see wakes everybody who waits.
-/

namespace Interlock.Condition

/-- The guarded value, and the values that predicates were asked about, latest first. -/
structure Cell (α : Type) where
  value : α
  polled : List α := []
  deriving Repr, Inhabited

namespace Cell

variable {α : Type}

/-- Asks a predicate about the value. -/
def ask (p : α → Bool) (c : Cell α) : Bool × Cell α :=
  (p c.value, { c with polled := c.value :: c.polled })

/-- Asks a predicate about the value and changes the value each time it holds. -/
def askAndChange (p : α → Bool) (change : α → α) (c : Cell α) : Bool × Cell α :=
  match c.ask p with
  | (true, c) => (true, { c with value := change c.value })
  | asked => asked

/-- Stores a value. -/
def store (v : α) (c : Cell α) : Cell α := { c with value := v }

end Cell

/-- A step on a condition lock. -/
inductive Step (α : Type) where
  | get
  | store (v : α)
  /-- Stores a value, wakes everybody and lets go. -/
  | unlockWith (v : α)
  | lockWhen (ready : α → Bool)
  | lockWhenTimeout (timeout : Duration) (ready : α → Bool)
  | wait
  /-- Waits as long as the predicate holds, and changes the value each time it does. -/
  | waitWhile (keep : α → Bool) (change : α → α)
  | waitTimeout (timeout : Duration)
  | notifyOne
  | notifyAll
  /-- Stores a value and unwinds with the lock held. -/
  | unwindHeld (v : α) (payload : Payload)
  /-- Locks again while holding the lock. -/
  | nested
  /-- Gives the value away, and the lock with it. -/
  | intoInner

/-- What a step gives back. -/
inductive Reply (α : Type) where
  | nothing
  | value (v : α)
  | flag (b : Bool)
  | count (n : Nat)
  | unwound (payload : Payload)
  | blocked
  | consumed
  deriving DecidableEq, Repr, Inhabited

/-- A condition lock in use. -/
structure Session (α : Type) where
  cell : Cell α
  /-- Threads that wait on the condition. -/
  waiters : Nat := 0
  /-- Whether the lock has been given away. -/
  consumed : Bool := false
  deriving Repr, Inhabited

/-- What came of a step: the reply, the lock, the events that were not needed, and the calls. -/
structure Taken (α : Type) where
  reply : Reply α
  session : Session α
  left : List (Event (Cell α))
  calls : List Call

namespace Session

variable {α : Type}

/-- The outcome of a step that waited. -/
def waited (s : Session α) (reply : Verdict → Cell α → Reply α) (w : Waited (Cell α)) : Taken α :=
  ⟨if w.verdict = .blocked then .blocked else reply w.verdict w.state, { s with cell := w.state },
    w.left, w.calls⟩

/-- The value under the guard, or nothing when there is no guard. -/
def underGuard (v : Verdict) (c : Cell α) : Reply α :=
  if v = .met then .value c.value else .nothing

/-- Takes a step; `events` happen during its waits. -/
def perform (now : Instant) (step : Step α) (events : List (Event (Cell α))) (s : Session α) :
    Taken α :=
  if s.consumed then ⟨.consumed, s, events, []⟩
  else
    match step with
    | .get => ⟨.value s.cell.value, s, events, []⟩
    | .store v => ⟨.nothing, { s with cell := s.cell.store v }, events, []⟩
    | .unlockWith v => ⟨.nothing, { s with cell := s.cell.store v }, events, [.notifyAll]⟩
    | .lockWhen ready =>
      s.waited underGuard (Condition.lockWhen (Cell.ask ready) events s.cell)
    | .lockWhenTimeout timeout ready =>
      s.waited underGuard
        (Condition.lockWhenTimeout now timeout (Cell.ask ready) events s.cell)
    | .wait => s.waited underGuard (Condition.wait events s.cell)
    | .waitWhile keep change =>
      s.waited underGuard (Condition.waitWhile (Cell.askAndChange keep change) events s.cell)
    | .waitTimeout timeout =>
      s.waited (fun v _ => .flag (v = .met)) (Condition.waitTimeout timeout events s.cell)
    | .notifyOne => ⟨.flag (s.waiters > 0), s, events, [.notifyOne]⟩
    | .notifyAll => ⟨.count s.waiters, s, events, [.notifyAll]⟩
    | .unwindHeld v payload =>
      ⟨.unwound payload, { s with cell := s.cell.store v }, events, []⟩
    | .nested => ⟨.blocked, s, events, []⟩
    | .intoInner => ⟨.value s.cell.value, { s with consumed := true }, events, []⟩

end Session

end Interlock.Condition
