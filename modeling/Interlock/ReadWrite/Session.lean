import Interlock.Payload
import Interlock.ReadWrite.System

/-!
# Using the reader/writer lock

Guards, code run under the lock, and sequences of steps that threads take on one lock.  A guard
remembers its mode only to be lowered; dropping it releases whatever its thread holds.
-/

namespace Interlock.ReadWrite

/-- A scope in which a guard is held. -/
inductive Scope where
  | read
  | write
  /-- A guard taken for writing and lowered to reading. -/
  | lowered
  deriving DecidableEq, Repr, Inhabited

/-- The mode in which a scope is entered. -/
def Scope.mode : Scope → Mode
  | .read => .read
  | _ => .write

/-- A step of a thread on a lock; code run under the lock gives back an `α`. -/
inductive Step (α : Type) where
  | acquire (strategy : Strategy)
  | release
  | downgrade
  /-- Waits for a guard, which is kept. -/
  | guard (mode : Mode)
  /-- Tries for a guard, which is kept if that succeeds. -/
  | tryGuard (mode : Mode)
  /-- Drops the newest guard. -/
  | dropGuard
  /-- Lowers the newest guard, which must be a write guard. -/
  | downgradeGuard
  /-- Runs code under the write lock that ends as given. -/
  | withLock (body : Ending α)
  /-- Runs code that ends as given while a guard is held, then tries both modes. -/
  | scope (scope : Scope) (body : Ending Unit)
  | setDebug (on : Bool)
  | clear
  | render
  deriving Inhabited

/-- What a step gives back. -/
inductive Reply (α : Type) where
  | nothing
  | level (l : Level)
  | mode (m : Mode)
  /-- The guards kept, counted. -/
  | guards (count : Nat)
  | flag (b : Bool)
  | value (v : α)
  | shown (text : String)
  /-- Whether there is a writer, and whether a read and a write lock could be had. -/
  | probes (writeLocked canRead canWrite : Bool)
  | unwound (payload : Payload)
  | blocked
  | aborted
  /-- The step does not apply. -/
  | inapplicable
  deriving DecidableEq, Repr, Inhabited

/-- A lock in use. -/
structure Session (σ : Type) where
  system : System σ
  /-- Guards that are kept, newest first. -/
  guards : List Mode := []
  deriving Repr, Inhabited

namespace Session

variable {σ α β : Type}

/-- The lock's own part. -/
def lock (s : Session σ) : ReadWrite := s.system.state.lock

/-- Changes the lock's own part. -/
def modify (f : ReadWrite → ReadWrite) (s : Session σ) : Session σ :=
  { s with system.state := s.system.state.modify f }

/-- Lets a thread carry out an operation. -/
def call (raw : Raw σ) (thread : Nat) (op : Operation) (s : Session σ) :
    Option Result × Session σ :=
  let (r, system) := s.system.call raw .numbered thread op
  (r, { s with system })

/-- The reply to an operation. -/
def replyTo : Option Result → Reply α
  | none => .blocked
  | some (.acquired level) => .level level
  | some .released => .nothing
  | some .lowered => .nothing
  | some (.failed f) => .unwound (.text f.message)

/-- Runs `body` under a lock that the caller holds and releases the lock however `body` ends. -/
def runHeld (raw : Raw σ) (thread : Nat) (body : Session σ → Ending α × Session σ)
    (s : Session σ) : Outcome α × Session σ :=
  let (ending, s) := body s
  let (r, s) := s.call raw thread .release
  match ending, r with
  | _, none => (.blocked, s)
  | .ok _, some (.failed f) => (.unwound (.text f.message), s)
  | .error _, some (.failed _) => (.aborted, s)
  | .ok value, some _ => (.returned value, s)
  | .error payload, some _ => (.unwound payload, s)

/-- Takes the guard of a scope. -/
def enter (raw : Raw σ) (thread : Nat) (scope : Scope) (s : Session σ) :
    Option Result × Session σ :=
  match s.call raw thread (.acquire (.waitFor scope.mode)) with
  | (some (.acquired level), s) =>
    if scope = .lowered then s.call raw thread .downgrade else (some (.acquired level), s)
  | (r, s) => (r, s)

/-- Takes the guard of a scope, runs `body` under it and drops the guard. -/
def within (raw : Raw σ) (thread : Nat) (scope : Scope)
    (body : Session σ → Ending α × Session σ) (s : Session σ) : Outcome α × Session σ :=
  match s.enter raw thread scope with
  | (some (.failed f), s) => (.unwound (.text f.message), s)
  | (some _, s) => s.runHeld raw thread body
  | (none, s) => (.blocked, s)

/-- Tries a mode and, if that succeeds, releases it again; tells whether it did. -/
def probe (raw : Raw σ) (thread : Nat) (mode : Mode) (s : Session σ) : Bool × Session σ :=
  match s.call raw thread (.acquire (.tryFor mode)) with
  | (some (.acquired level), s) =>
    if level.isLocked then (true, (s.call raw thread .release).2) else (false, s)
  | (_, s) => (false, s)

/-- Looks whether there is a writer, and tries both modes. -/
def probes (raw : Raw σ) (thread : Nat) (s : Session σ) : (Bool × Bool × Bool) × Session σ :=
  let writeLocked := s.lock.isWriteLocked
  let (canRead, s) := s.probe raw thread .read
  let (canWrite, s) := s.probe raw thread .write
  ((writeLocked, canRead, canWrite), s)

/-- The inside of a scope: runs the code that ends as given, and tries both modes. -/
def inScope (raw : Raw σ) (thread : Nat) (body : Ending Unit) (s : Session σ) :
    Ending (Bool × Bool × Bool) × Session σ :=
  match body with
  | .error payload => (.error payload, s)
  | .ok () =>
    let (seen, s) := s.probes raw thread
    (.ok seen, s)

/-- The reply to code run under the lock. -/
def replyOf (value : β → Reply α) : Outcome β → Reply α
  | .returned v => value v
  | .unwound payload => .unwound payload
  | .blocked => .blocked
  | .aborted => .aborted

/-- Takes a step of `thread`. -/
def perform (raw : Raw σ) (thread : Nat) (step : Step α) (s : Session σ) :
    Reply α × Session σ :=
  match step with
  | .acquire strategy =>
    let (r, s) := s.call raw thread (.acquire strategy)
    (replyTo r, s)
  | .release =>
    let (r, s) := s.call raw thread .release
    (replyTo r, s)
  | .downgrade =>
    let (r, s) := s.call raw thread .downgrade
    (replyTo r, s)
  | .guard mode =>
    match s.call raw thread (.acquire (.waitFor mode)) with
    | (some (.acquired _), s) => (.mode mode, { s with guards := mode :: s.guards })
    | (r, s) => (replyTo r, s)
  | .tryGuard mode =>
    match s.call raw thread (.acquire (.tryFor mode)) with
    | (some (.acquired level), s) =>
      if level.isLocked then (.mode mode, { s with guards := mode :: s.guards }) else (.nothing, s)
    | (r, s) => (replyTo r, s)
  | .dropGuard =>
    match s.guards with
    | [] => (.guards 0, s)
    | _ :: guards =>
      match { s with guards }.call raw thread .release with
      | (some (.failed f), s) => (.unwound (.text f.message), s)
      | (some _, s) => (.guards s.guards.length, s)
      | (none, s) => (.blocked, s)
  | .downgradeGuard =>
    match s.guards with
    | .write :: guards =>
      match { s with guards }.call raw thread .downgrade with
      | (some .lowered, s) => (.mode .read, { s with guards := .read :: s.guards })
      | (r, s) => (replyTo r, s)
    | _ => (.inapplicable, s)
  | .withLock body =>
    let (r, s) := s.within raw thread .write fun s => (body, s)
    (replyOf .value r, s)
  | .scope scope body =>
    let (r, s) := s.within raw thread scope (inScope raw thread body)
    (replyOf (fun (w, canRead, canWrite) => .probes w canRead canWrite) r, s)
  | .setDebug on => (.flag on, s.modify fun l => { l with debugging := on })
  | .clear => (.nothing, s.modify clearCounters)
  | .render => (.shown s.lock.render, s)

/-- Goes on with an operation in which a thread is left waiting. -/
def resume (raw : Raw σ) (thread : Nat) (s : Session σ) : Reply α × Session σ :=
  let system := s.system.advance raw .numbered thread
  (replyTo ((system.threads[thread]?).bind Activity.result?), { s with system })

/-- The lock below as threads find it that share it. -/
def shared (s : Session Ideal) : Raw Ideal :=
  if s.system.writerWaits then Ideal.reserved else Ideal.raw

/-- Takes steps of `thread` one after the other; the replies come in the same order. -/
def run (raw : Raw σ) (thread : Nat) : List (Step α) → Session σ → List (Reply α) × Session σ
  | [], s => ([], s)
  | step :: steps, s =>
    let (r, s) := s.perform raw thread step
    let (rs, s) := run raw thread steps s
    (r :: rs, s)

end Session

end Interlock.ReadWrite
