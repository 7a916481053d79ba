import Interlock.Proofs.Pool.Sound

/-!
# The moves of a sound pool

`Move` lists what a step of a sound pool can do, with the condition of each move and all that it
changes.  No move contains a failed check.  What a run keeps is proved by cases over the moves.
-/

namespace Interlock.Pool

/-! ## The moves -/

/-- Puts a worker into its place. -/
def putWorker (i : Nat) (w : Worker) (p : Pool) : Pool :=
  { p with workers := p.workers.set i w }

theorem getElem?_putWorker {p : Pool} {i j : Nat} {w x : Worker}
    (h : (p.putWorker i w).workers[j]? = some x) :
    j = i ∧ x = w ∨ j ≠ i ∧ p.workers[j]? = some x := by
  simp only [putWorker, List.getElem?_set] at h
  grind

section Set

variable {p q : Pool} {i j job job' : Nat} {w x : Worker} {e e' : Entry}

theorem workers_set_self (hw : p.workers[i]? = some w) (hq : q.workers = p.workers.set i x) :
    q.workers[i]? = some x := by
  rw [hq, List.getElem?_set_self (List.getElem?_eq_some_iff.1 hw).1]

theorem workers_set_of_ne (hq : q.workers = p.workers.set i x) (h : i ≠ j) :
    q.workers[j]? = p.workers[j]? := by
  rw [hq, List.getElem?_set_ne h]

theorem jobs_set_self (he : p.jobs[job]? = some e) (hq : q.jobs = p.jobs.setIfInBounds job e') :
    q.jobs[job]? = some e' := by
  have inside := (Array.getElem?_eq_some_iff.1 he).1
  rw [hq]
  simp [inside]

theorem jobs_set_of_ne (hq : q.jobs = p.jobs.setIfInBounds job e') (h : job' ≠ job) :
    q.jobs[job']? = p.jobs[job']? := by
  rw [hq, Array.getElem?_setIfInBounds_ne (Ne.symm h)]

end Set

/-- Whether a thread is attached to a slot. -/
def isAttached (p : Pool) (i : Nat) : Bool := (p.workers[i]?).any (·.slot.isAttached)

/-- Where a worker stands after a step in its job. -/
def phaseAfter (job : Nat) : Job.Phase → Worker.Phase
  | .done => .resting
  | phase => .running job phase

/-- Where a submitter stands after a step in its signal. -/
def Submission.afterNudge (index : Nat) : Nudge → Submission
  | .done _ => .accepted index
  | n => .nudging index n

/-- Where a reaper stands after a step in its signal. -/
def Reaping.afterNudge (size index : Nat) : Nudge → Reaping
  | .done _ => .nudgeFrom size (index + 1)
  | n => .nudging index n

/-- Where the maker of the pool stands after a step in stopping the workers. -/
def Creation.afterRollback (index : Nat) (reason : StartFailure) : Reaping → Creation
  | .returned => .dropping index reason .arriving
  | r => .rollingBack index reason r

/-- Where the maker of the pool stands after a step in dropping the pool. -/
def Creation.afterDrop (index : Nat) (reason : StartFailure) : Reaping → Creation
  | .returned => .failed (.spawn index reason)
  | r => .dropping index reason r

/-- A worker's move; `log` is the log after it. -/
inductive WorkerMove (p : Pool) (log : Array (Thread × Log.Line)) (i : Nat) (w : Worker) :
    Pool → Prop
  | attach (h : w.phase = .attaching) :
    WorkerMove p log i w
      { p.putWorker i { w with slot.status := .sleeping, phase := .announcing } with
        live := p.live.increment, idle := p.idle ++ [i], creation := p.creation.roused i, log }
  | announce (h : w.phase = .announcing) :
    WorkerMove p log i w (p.putWorker i { w with phase := .checking })
  | take {job : Nat} (h : w.phase = .checking) (hcell : w.slot.cell = some job) :
    WorkerMove p log i w
      { p.putWorker i
          { w with slot := { w.slot with status := .awake, cell := none }, phase := .beginning job }
        with log }
  | leave (h : w.phase = .checking) (hcell : w.slot.cell = none)
      (hstop : p.control.isStopping = true) :
    WorkerMove p log i w (p.putWorker i { w with phase := .detaching })
  | wait (h : w.phase = .checking) (hcell : w.slot.cell = none)
      (hstop : p.control.isStopping = false) :
    WorkerMove p log i w (p.putWorker i { w with phase := .waiting })
  | start {job : Nat} (h : w.phase = .beginning job) :
    WorkerMove p log i w
      { p.putWorker i
          { w with slot.status := .runningJob, phase := .running job .beginning } with log }
  | work {job : Nat} {phase : Job.Phase} {e : Entry} (h : w.phase = .running job phase)
      (hgoes : w.ended? = none) (hjob : p.jobs[job]? = some e) :
    WorkerMove p log i w
      { p.putWorker i
          { w with
            slot.jobsRun := phase.tally w.slot.jobsRun
            phase := phaseAfter job (phase.next e.ending) } with
        jobs := p.jobs.setIfInBounds job
          { e with state := (phase.next e.ending).state e.ending }
        log }
  | rest (h : w.phase = .resting) :
    WorkerMove p log i w
      { p.putWorker i { w with slot.status := .sleeping, phase := .announcing } with
        idle := p.idle ++ [i], log }
  | detach (h : w.phase = .detaching) :
    WorkerMove p log i w
      { p.putWorker i { w with slot.status := .notRunning, phase := .reporting } with
        live := p.live.decrement, creation := p.creation.roused i, log }
  | report (h : w.phase = .reporting) :
    WorkerMove p log i w
      { p.putWorker i { w with phase := .ended (w.exit.map Subtype.val) } with log }

/-- A move in signalling a slot. -/
inductive NudgeMove (p : Pool) : Nudge → Nudge → Pool → Prop
  | look {i : Nat} (h : p.isAttached i = true) : NudgeMove p (.looking i) (.notifying i) p
  | miss {i : Nat} (h : p.isAttached i = false) : NudgeMove p (.looking i) (.done false) p
  | notify {i : Nat} : NudgeMove p (.notifying i) (.done true) (p.notify i)
  | stay {reached : Bool} : NudgeMove p (.done reached) (.done reached) p

/-- A move in handing in a job. -/
inductive SubmissionMove (p : Pool) (log : Array (Thread × Log.Line)) (job : Nat) :
    Submission → Submission → Pool → Prop
  | refuse {waited : Bool} (h : p.control.isStopping = true) :
    SubmissionMove p log job (.arriving waited) .refused p
  | enter {waited : Bool} (h : p.control.isStopping = false) :
    SubmissionMove p log job (.arriving waited) (.popping waited) p
  | pop {waited : Bool} {i : Nat} {idle : List Nat} (h : p.idle = i :: idle) :
    SubmissionMove p log job (.popping waited) (.holding i) { p with idle }
  | full {waited : Bool} (h : p.idle = []) :
    SubmissionMove p log job (.popping waited) (if waited then .parking else .counting) p
  | count :
    SubmissionMove p log job .counting .parking
      { p with backpressure := p.backpressure.increment }
  | retry : SubmissionMove p log job .parking (.arriving true) p
  | giveBack {i : Nat} (h : p.control.isStopping = true) :
    SubmissionMove p log job (.holding i) .refused { p with idle := p.idle ++ [i] }
  | install {i : Nat} {w : Worker} (hw : p.workers[i]? = some w)
      (h : p.control.isStopping = false) (hs : w.slot.status = .sleeping) :
    SubmissionMove p log job (.holding i) (.nudging i (.looking i))
      { p.putWorker i
          { w with slot := { w.slot with status := .wakeRequested, cell := some job } }
        with log }
  | nudge {i : Nat} {n n' : Nudge} {q : Pool} (m : NudgeMove p n n' q) :
    SubmissionMove p log job (.nudging i n) (.afterNudge i n') q
  | stay {s : Submission} (h : (Activity.submitting job s).isOver = true) :
    SubmissionMove p log job s s p

/-- A move in stopping and joining the workers. -/
inductive ReapingMove (p : Pool) (log : Array (Thread × Log.Line)) :
    Reaping → Reaping → Pool → Prop
  | known (h : p.control.isReaped = true) : ReapingMove p log .arriving .returned p
  | go (h : p.control.isReaped = false) : ReapingMove p log .arriving .stopping p
  | stop :
    ReapingMove p log .stopping .claiming { p with control := p.control.requestStop.2 }
  | win (h : p.control.isReaping = false) :
    ReapingMove p log .claiming .rechecking { p with control := p.control.beginReaping.2 }
  | lose (h : p.control.isReaping = true) :
    ReapingMove p log .claiming .awaiting { p with control := p.control.beginReaping.2 }
  | told (h : p.reaped = true) : ReapingMove p log .awaiting .returned p
  | sleep (h : p.reaped = false) : ReapingMove p log .awaiting .asleep p
  | late (h : p.control.isReaped = true) : ReapingMove p log .rechecking .cancelling p
  | first (h : p.control.isReaped = false) : ReapingMove p log .rechecking .broadcasting p
  | cancel :
    ReapingMove p log .cancelling .returned
      { p with control := p.control.cancelReaping.2, log }
  | broadcast : ReapingMove p log .broadcasting (.nudgeFrom p.size 0) p
  | nudge {i : Nat} {n n' : Nudge} {q : Pool} (m : NudgeMove p n n' q) :
    ReapingMove p log (.nudging i n) (.afterNudge p.size i n') q
  | collect :
    ReapingMove p log .collecting (.joining p.handles p.handles.length) { p with handles := [] }
  | join {i joined : Nat} {left : List Nat} {w : Worker} {payload : Option Payload}
      (hw : p.workers[i]? = some w) (h : w.ended? = some payload)
      (hdrop : payload.all Payload.isInert = true) :
    ReapingMove p log (.joining (i :: left) joined) (.joining left joined) { p with log }
  | fall {i joined : Nat} {left : List Nat} {w : Worker} {next : Payload}
      (hw : p.workers[i]? = some w) (h : w.ended? = some (some (.bomb next))) :
    ReapingMove p log (.joining (i :: left) joined) (.broken next) { p with log }
  | joined {joined : Nat} : ReapingMove p log (.joining [] joined) (.draining joined) p
  | drain {i joined : Nat} {idle : List Nat} (h : p.idle = i :: idle) :
    ReapingMove p log (.draining joined) (.draining joined) { p with idle }
  | drained {joined : Nat} (h : p.idle = []) :
    ReapingMove p log (.draining joined) (.marking joined) p
  | mark {joined : Nat} :
    ReapingMove p log (.marking joined) (.yielding joined)
      { p with control := p.control.markReaped.2, log }
  | yield {joined : Nat} :
    ReapingMove p log (.yielding joined) (.publishing joined)
      { p with control := p.control.yieldReaping.2, log }
  | publish {joined : Nat} :
    ReapingMove p log (.publishing joined) (.reporting joined)
      { p with reaped := true }.notifyReaped
  | report {joined : Nat} : ReapingMove p log (.reporting joined) .returned { p with log }
  | stay {r : Reaping} : ReapingMove p log r r p

/-- A move in making the pool. -/
inductive CreationMove (p : Pool) (log : Array (Thread × Log.Line)) : Pool → Prop
  | prepare {i : Nat} {w : Worker} (h : p.creation = .preparing i) (hw : p.workers[i]? = some w) :
    CreationMove p log
      { p.putWorker i { w with slot.status := .starting } with creation := .spawning i, log }
  | spawn {i : Nat} {w : Worker} {exit : Option Payload.Inert} (h : p.creation = .spawning i)
      (hw : p.workers[i]? = some w) (hs : p.spawner i = .ok exit) :
    CreationMove p log
      { p.putWorker i { w with phase := .attaching, exit } with
        spawned := i :: p.spawned, creation := .storing i }
  | refuse {i : Nat} {reason : StartFailure} (h : p.creation = .spawning i)
      (hs : p.spawner i = .error reason) :
    CreationMove p log { p with spawned := i :: p.spawned, creation := .undoing i reason }
  | store {i : Nat} (h : p.creation = .storing i) :
    CreationMove p log
      { p with handles := p.handles ++ [i], creation := .prepareFrom p.size (i + 1) }
  | undo {i : Nat} {w : Worker} {reason : StartFailure} (h : p.creation = .undoing i reason)
      (hw : p.workers[i]? = some w) :
    CreationMove p log
      { p.putWorker i { w with slot.status := .notRunning } with
        creation := .noting i reason, log }
  | note {i : Nat} {reason : StartFailure} (h : p.creation = .noting i reason) :
    CreationMove p log { p with creation := .rollingBack i reason .arriving, log }
  | rollBack {i : Nat} {reason : StartFailure} {r r' : Reaping} {q : Pool}
      (h : p.creation = .rollingBack i reason r) (m : ReapingMove p log r r' q) :
    CreationMove p log { q with creation := .afterRollback i reason r' }
  | drop {i : Nat} {reason : StartFailure} {r r' : Reaping} {q : Pool}
      (h : p.creation = .dropping i reason r) (m : ReapingMove p log r r' q) :
    CreationMove p log { q with creation := .afterDrop i reason r' }
  | sleep {i : Nat} (h : p.creation = .awaiting i) (hs : p.status? i = some .starting) :
    CreationMove p log { p with creation := .asleep i }
  | started {i : Nat} (h : p.creation = .awaiting i) (hs : p.status? i ≠ some .starting) :
    CreationMove p log { p with creation := .awaitFrom p.size (i + 1) }
  | announce (h : p.creation = .announcing) :
    CreationMove p log { p with creation := .ready, log }

/-- A move of a pool: what an action does when no check fails. -/
inductive Move (p : Pool) (log : Array (Thread × Log.Line)) : Action → Pool → Prop
  | stay {a : Action} : Move p log a p
  | worker {i : Nat} {w : Worker} {q : Pool} (hw : p.workers[i]? = some w)
      (m : WorkerMove p log i w q) : Move p log (.worker i) q
  | submission {k job : Nat} {c : Call} {s s' : Submission} {q : Pool}
      (hc : p.calls[k]? = some c) (h : c.activity = .submitting job s)
      (m : SubmissionMove p log job s s' q) :
    Move p log (.call k) (q.putCall k { c with activity := .submitting job s' })
  | reaping {k : Nat} {c : Call} {r r' : Reaping} {q : Pool} (hc : p.calls[k]? = some c)
      (h : c.activity = .reaping r) (m : ReapingMove p log r r' q) :
    Move p log (.call k) (q.putCall k { c with activity := .reaping r' })
  | nudging {k : Nat} {c : Call} {n n' : Nudge} {q : Pool} (hc : p.calls[k]? = some c)
      (h : c.activity = .nudging n) (m : NudgeMove p n n' q) :
    Move p log (.call k) (q.putCall k { c with activity := .nudging n' })
  | creation {q : Pool} (m : CreationMove p log q) : Move p log .creation q
  | begin {thread : Thread} {request : Request} (h : p.creation = .ready) :
    Move p log (.begin thread request) (p.beginCall thread request)
  | release {job : Nat} :
    Move p log (.release job)
      { p with jobs := p.jobs.modify job fun e => { e with released := true } }
  | rouse {i : Nat} : Move p log (.rouse i) (p.notify i)
  | rouseReapers : Move p log .rouseReapers p.notifyReaped

end Interlock.Pool
