import Interlock.Duration

/-!
# Threads waiting on one condition

Waiting threads form a queue.  A notification takes threads from its front; each asks its
predicate again and either returns with the lock or joins the queue at its end.  A thread whose
deadline passes leaves the queue and asks its predicate for the last time.
-/

namespace Interlock.Condition

/-- Where a waiting thread stands. -/
inductive Standing (α : Type) where
  | queued
  /-- It returned, and held the lock with this value. -/
  | returned (v : α)
  /-- Its time ran out. -/
  | gaveUp
  deriving DecidableEq, Repr, Inhabited

/-- A thread that waits until its predicate holds. -/
structure Waiter (α : Type) where
  ready : α → Bool
  /-- How often the predicate was asked. -/
  polls : Nat := 0
  standing : Standing α := .queued

/-- A guarded value, the threads that came to wait for it, and the queue of those that do. -/
structure Crowd (α : Type) where
  value : α
  waiters : List (Waiter α) := []
  queue : List Nat := []

namespace Crowd

variable {α : Type}

/-- Stores a value. -/
def store (v : α) (c : Crowd α) : Crowd α := { c with value := v }

/-- Changes one thread. -/
def updateWaiter (id : Nat) (f : Waiter α → Waiter α) (c : Crowd α) : Crowd α :=
  { c with waiters := c.waiters.modify id f }

/-- A thread asks its predicate; it returns or queues up. -/
def ask (id : Nat) (c : Crowd α) : Crowd α :=
  match c.waiters[id]? with
  | none => c
  | some w =>
    if w.ready c.value then
      c.updateWaiter id fun w => { w with polls := w.polls + 1, standing := .returned c.value }
    else
      { c.updateWaiter id (fun w => { w with polls := w.polls + 1 }) with
        queue := c.queue ++ [id] }

/-- A thread's time has run out: it leaves the queue and asks for the last time. -/
def expire (id : Nat) (c : Crowd α) : Crowd α :=
  match c.waiters[id]? with
  | none => c
  | some w =>
    if c.queue.contains id then
      let standing : Standing α := if w.ready c.value then .returned c.value else .gaveUp
      { c.updateWaiter id (fun w => { w with polls := w.polls + 1, standing }) with
        queue := c.queue.filter (· != id) }
    else c

/-- A thread comes to wait until `ready` holds. -/
def join (ready : α → Bool) (c : Crowd α) : Crowd α :=
  let grown : Crowd α := { c with waiters := c.waiters ++ [⟨ready, 0, .queued⟩] }
  grown.ask c.waiters.length

/-- A thread comes to wait until `ready` holds, with a timeout: it asks once before it works out
its deadline.  A deadline that has passed already ends the first wait at once. -/
def joinTimeout (timeout : Duration) (ready : α → Bool) (c : Crowd α) : Crowd α :=
  let id := c.waiters.length
  if ready c.value then c.join ready
  else
    let c := (c.join ready).updateWaiter id fun w => { w with polls := w.polls + 1 }
    if timeout.isZero then c.expire id else c

/-- Wakes the thread that has waited longest; tells whether there was one. -/
def notifyOne (c : Crowd α) : Bool × Crowd α :=
  match c.queue with
  | [] => (false, c)
  | id :: queue => (true, ask id { c with queue })

/-- Wakes everybody; tells how many they were. -/
def notifyAll (c : Crowd α) : Nat × Crowd α :=
  (c.queue.length, c.queue.foldl (fun c id => c.ask id) { c with queue := [] })

/-- The threads that returned, with their values, in the order in which they came. -/
def returned (c : Crowd α) : List (Nat × α) :=
  (c.waiters.zipIdx).filterMap fun (w, id) =>
    match w.standing with
    | .returned v => some (id, v)
    | _ => none

end Crowd

end Interlock.Condition
