import Interlock.Pool.Basic

/-!
# The steps of a pool

A pool moves on by the steps of its workers and of the threads that make calls of it, in any
order.  `step` makes one of them; a step that is not possible changes nothing.  A wait at a slot
gives up the slot's lock and blocks until it is notified, in one step, and may end unasked.
-/

namespace Interlock.Pool

/-! ## Workers -/

/-- A worker's next step in its job. -/
def stepJob (index : Nat) (w : Worker) (job : Nat) (phase : Job.Phase) (p : Pool) : Pool :=
  match p.jobs[job]? with
  | none => p
  | some entry =>
    let run : Job.Run := { phase, state := entry.state, jobsRun := w.slot.jobsRun }
    if run.isInside && !entry.released then p
    else
      let run := run.step index entry.ending
      let phase : Worker.Phase :=
        match run.phase with
        | .done => .resting
        | phase => .running job phase
      { p with
        jobs := p.jobs.setIfInBounds job { entry with state := run.state }
        workers := p.workers.modify index fun w =>
          { w with phase, slot.jobsRun := run.jobsRun } }
        |>.reportAll (.worker index) run.log.reverse

/-- Goes on after moving the status, or ends the worker's thread if the move was refused. -/
def unlessBroken (index : Nat) (next : Pool → Pool) : Option Payload × Pool → Pool
  | (some payload, p) => p.setPhase index (.ended (some payload))
  | (none, p) => next p

/-- A worker's next step. -/
def stepWorker (index : Nat) (p : Pool) : Pool :=
  match p.workers[index]? with
  | none => p
  | some w =>
    let who : Thread := .worker index
    match w.phase with
    | .unborn => p
    | .attaching =>
      (p.advance who index .starting .sleeping) |> unlessBroken index fun p =>
        (({ p with live := p.live.increment }.pushIdle who index).notify index).setPhase index
          .announcing
    | .announcing => p.setPhase index .checking
    | .checking =>
      match w.slot.cell with
      | some job =>
        ((p.setCell index none).advance who index .wakeRequested .awake) |> unlessBroken index
          (setPhase index (.beginning job))
      | none => p.setPhase index (if p.control.isStopping then .detaching else .waiting)
    | .waiting => p
    | .beginning job =>
      (p.advance who index .awake .runningJob) |> unlessBroken index
        (setPhase index (.running job .beginning))
    | .running _ (.broken _) => p
    | .running job phase => p.stepJob index w job phase
    | .resting =>
      (p.advance who index .runningJob .sleeping) |> unlessBroken index fun p =>
        (p.pushIdle who index).setPhase index .announcing
    | .detaching =>
      (p.advance who index .sleeping .notRunning) |> unlessBroken index fun p =>
        ({ p with live := p.live.decrement }.notify index).setPhase index .reporting
    | .reporting =>
      (p.note who ("worker " ++ toString index ++ " exiting after "
        ++ toString w.slot.jobsRun.value ++ " jobs")).setPhase index
          (.ended (w.exit.map Subtype.val))
    | .ended _ => p

/-- Whether a worker's next step does anything. -/
def canStepWorker (p : Pool) (w : Worker) : Bool :=
  match w.phase with
  | .unborn => false
  | .waiting => false
  | .ended _ => false
  | .running job .inside => ((p.jobs[job]?).map (·.released)).getD false
  | .running _ (.broken _) => false
  | _ => true

/-! ## Calls -/

/-- The next step in signalling a slot. -/
def stepNudge (p : Pool) : Nudge → Nudge × Pool
  | .looking index =>
    match p.workers[index]? with
    | none => (.done false, p)
    | some w => (if w.slot.isAttached then .notifying index else .done false, p)
  | .notifying index => (.done true, p.notify index)
  | .done reached => (.done reached, p)

/-- The next step in handing in a job. -/
def stepSubmission (who : Thread) (job : Nat) (p : Pool) : Submission → Submission × Pool
  | .arriving waited => (if p.control.isStopping then .refused else .popping waited, p)
  | .popping waited =>
    match p.idle with
    | index :: idle => (.holding index, { p with idle })
    | [] => (if waited then .parking else .counting, p)
  | .counting => (.parking, { p with backpressure := p.backpressure.increment })
  | .parking => (.arriving true, p)
  | .holding index =>
    if p.control.isStopping then (.refused, p.pushIdle who index)
    else
      match p.advance who index .sleeping .wakeRequested with
      | (some payload, p) => (.broken payload, p)
      | (none, p) => (.nudging index (.looking index), p.setCell index (some job))
  | .nudging index n =>
    match p.stepNudge n with
    | (.done _, p) => (.accepted index, p)
    | (n, p) => (.nudging index n, p)
  | .accepted index => (.accepted index, p)
  | .refused => (.refused, p)
  | .broken payload => (.broken payload, p)

/-- Signals the slots from `index` on, and takes the handles after the last one. -/
def Reaping.nudgeFrom (size index : Nat) : Reaping :=
  if index < size then .nudging index (.looking index) else .collecting

/-- The next step in stopping and joining the workers. -/
def stepReaping (who : Thread) (p : Pool) : Reaping → Reaping × Pool
  | .arriving => (if p.control.isReaped then .returned else .stopping, p)
  | .stopping => (.claiming, { p with control := p.control.requestStop.2 })
  | .claiming =>
    let (won, control) := p.control.beginReaping
    (if won then .rechecking else .awaiting, { p with control })
  | .awaiting => (if p.reaped then .returned else .asleep, p)
  | .asleep => (.asleep, p)
  | .rechecking => (if p.control.isReaped then .cancelling else .broadcasting, p)
  | .cancelling =>
    let (lines, control) := p.control.cancelReaping
    (.returned, { p with control }.reportAll who lines)
  | .broadcasting => (.nudgeFrom p.size 0, p)
  | .nudging index n =>
    match p.stepNudge n with
    | (.done _, p) => (.nudgeFrom p.size (index + 1), p)
    | (n, p) => (.nudging index n, p)
  | .collecting => (.joining p.handles p.handles.length, { p with handles := [] })
  | .joining [] joined => (.draining joined, p)
  | .joining (index :: left) joined =>
    match (p.workers[index]?).bind (·.ended?) with
    | none => (.joining (index :: left) joined, p)
    | some none => (.joining left joined, p)
    | some (some payload) =>
      let after : Reaping :=
        match payload.drop with
        | .ok () => .joining left joined
        | .error next => .broken next
      (after, p.report who (.error ("worker thread panicked: " ++ payload.describe)))
  | .draining joined =>
    match p.idle with
    | [] => (.marking joined, p)
    | _ :: idle => (.draining joined, { p with idle })
  | .marking joined =>
    let (lines, control) := p.control.markReaped
    (.yielding joined, { p with control }.reportAll who lines)
  | .yielding joined =>
    let (lines, control) := p.control.yieldReaping
    (.publishing joined, { p with control }.reportAll who lines)
  | .publishing joined => (.reporting joined, { p with reaped := true }.notifyReaped)
  | .reporting joined =>
    (.returned, p.report who (.debug ("reaped " ++ toString joined ++ " worker threads")))
  | .returned => (.returned, p)
  | .broken payload => (.broken payload, p)

/-- Whether the next step in stopping and joining the workers does anything. -/
def canStepReaping (p : Pool) : Reaping → Bool
  | .asleep => false
  | .joining (index :: _) _ => ((p.workers[index]?).bind (·.ended?)).isSome
  | .returned => false
  | .broken _ => false
  | _ => true

/-- The next step of a call. -/
def stepCall (call : Nat) (p : Pool) : Pool :=
  match p.calls[call]? with
  | none => p
  | some c =>
    let (activity, p) : Activity × Pool :=
      match c.activity with
      | .submitting job s =>
        let (s, p) := p.stepSubmission c.thread job s
        (.submitting job s, p)
      | .reaping r =>
        let (r, p) := p.stepReaping c.thread r
        (.reaping r, p)
      | .nudging n =>
        let (n, p) := p.stepNudge n
        (.nudging n, p)
    { p with calls := p.calls.setIfInBounds call { c with activity } }

/-- Whether a call's next step does anything. -/
def canStepCall (p : Pool) (c : Call) : Bool :=
  match c.activity with
  | .reaping r => p.canStepReaping r
  | activity => !activity.isOver

/-! ## Making the pool -/

/-- The step after the threads up to `index` have been started: the next thread, or the wait for
the first one. -/
def Creation.prepareFrom (size index : Nat) : Creation :=
  if index < size then .preparing index
  else if 0 < size then .awaiting 0
  else .announcing

/-- The step after the workers up to `index` have got past their start. -/
def Creation.awaitFrom (size index : Nat) : Creation :=
  if index < size then .awaiting index else .announcing

/-- The next step in making the pool; it is the main thread's. -/
def stepCreation (p : Pool) : Pool :=
  match p.creation with
  | .preparing index =>
    match p.advance .main index .notRunning .starting with
    | (some payload, p) => { p with creation := .broken payload }
    | (none, p) => { p with creation := .spawning index }
  | .spawning index =>
    let p := { p with spawned := index :: p.spawned }
    match p.spawner index with
    | .ok exit =>
      { p.updateWorker index fun w => { w with phase := .attaching, exit } with
        creation := .storing index }
    | .error reason => { p with creation := .undoing index reason }
  | .storing index =>
    { p with handles := p.handles ++ [index], creation := .prepareFrom p.size (index + 1) }
  | .undoing index reason =>
    match p.advance .main index .starting .notRunning with
    | (some payload, p) => { p with creation := .broken payload }
    | (none, p) => { p with creation := .noting index reason }
  | .noting index reason =>
    { p.report .main (.error ("spawning worker " ++ toString index ++ " failed: "
        ++ reason.message ++ "; rolling back " ++ toString index ++ " started")) with
      creation := .rollingBack index reason .arriving }
  | .rollingBack index reason r =>
    match p.stepReaping .main r with
    | (.returned, p) => { p with creation := .dropping index reason .arriving }
    | (r, p) => { p with creation := .rollingBack index reason r }
  | .dropping index reason r =>
    match p.stepReaping .main r with
    | (.returned, p) => { p with creation := .failed (.spawn index reason) }
    | (r, p) => { p with creation := .dropping index reason r }
  | .awaiting index =>
    match p.status? index with
    | some .starting => { p with creation := .asleep index }
    | _ => { p with creation := .awaitFrom p.size (index + 1) }
  | .asleep _ => p
  | .announcing =>
    { p.report .main (.debug ("pool ready with " ++ toString p.size ++ " workers")) with
      creation := .ready }
  | .ready => p
  | .failed _ => p
  | .broken _ => p

/-- Whether the next step in making the pool does anything. -/
def canStepCreation (p : Pool) : Bool :=
  match p.creation with
  | .rollingBack _ _ r => p.canStepReaping r
  | .dropping _ _ r => p.canStepReaping r
  | .asleep _ => false
  | .ready => false
  | .failed _ => false
  | .broken _ => false
  | _ => true

/-! ## All of it -/

/-- What may happen next. -/
inductive Action where
  /-- A worker takes its next step. -/
  | worker (index : Nat)
  /-- A call takes its next step. -/
  | call (call : Nat)
  /-- Making the pool goes on. -/
  | creation
  /-- A thread begins a call of a pool that has been made. -/
  | begin (thread : Thread) (request : Request)
  /-- The task of a job may end. -/
  | release (job : Nat)
  /-- Whoever waits at a slot wakes up unasked. -/
  | rouse (index : Nat)
  /-- Those who wait for the reaper wake up unasked. -/
  | rouseReapers
  deriving Inhabited

/-- Adds a job that was handed in. -/
def addJob (entry : Entry) (p : Pool) : Pool := { p with jobs := p.jobs.push entry }

/-- Adds a call. -/
def addCall (thread : Thread) (activity : Activity) (p : Pool) : Pool :=
  { p with calls := p.calls.push { thread, activity } }

/-- Begins a call. -/
def beginCall (thread : Thread) (request : Request) (p : Pool) : Pool :=
  match request with
  | .submit ending gated =>
    (p.addCall thread (.submitting p.jobs.size (.arriving false))).addJob
      { ending, released := !gated }
  | .reap => p.addCall thread (.reaping .arriving)
  | .wake index => p.addCall thread (.nudging (.looking index))

/-- Makes a step. -/
def step (p : Pool) : Action → Pool
  | .worker index => p.stepWorker index
  | .call call => p.stepCall call
  | .creation => p.stepCreation
  | .begin thread request => if p.creation = .ready then p.beginCall thread request else p
  | .release job => { p with jobs := p.jobs.modify job fun e => { e with released := true } }
  | .rouse index => p.notify index
  | .rouseReapers => p.notifyReaped

/-- The pools that a run reaches. -/
inductive Reachable (config : Config)
    (spawner : Nat → Except StartFailure (Option Payload.Inert)) : Pool → Prop
  | start : Reachable config spawner (create config spawner)
  | step {p : Pool} (action : Action) (h : Reachable config spawner p) :
      Reachable config spawner (p.step action)

end Interlock.Pool
